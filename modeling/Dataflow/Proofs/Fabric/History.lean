import Dataflow.Fabric.Bench
import Dataflow.Proofs.Fabric.Mailbox

/-! Claims go by history. The account of a history holds the claims that were granted and the
messages that went into each mailbox and came out of it, and it alone decides what a fabric answers
next. A claim that is refused leaves everything as it was. All handles of a channel lead to the same
mailboxes, and what comes out of a mailbox is what went into it, in that order. -/
namespace Dataflow

variable {τ M : Type}

namespace Bench

/-- What is done with the fabric in use. -/
inductive Act (τ M : Type) where
  | claim (name : String) (channel : UInt32) (kind : τ) (worker : Nat)
  | push (name : String) (box : Nat) (message : M)
  | pop (name : String) (box : Nat)

inductive Reply (M : Type) where
  | claimed (answer : Except ClaimError Nat)
  | pushed (answer : Except HandleError Unit)
  | popped (answer : Except HandleError (Option M))

variable [DecidableEq τ]

def perform (bench : Bench τ M) : Act τ M → Reply M × Bench τ M
  | .claim name channel kind worker =>
    let (answer, bench) := bench.claim name channel kind worker
    (.claimed answer, bench)
  | .push name box message =>
    let (answer, bench) := bench.push name box message
    (.pushed answer, bench)
  | .pop name box =>
    let (answer, bench) := bench.pop name box
    (.popped answer, bench)

def after (bench : Bench τ M) (acts : List (Act τ M)) : Bench τ M :=
  acts.foldl (fun bench act => (bench.perform act).2) bench

def history : Bench τ M → List (Act τ M) → List (Act τ M × Reply M)
  | _, [] => []
  | bench, act :: acts =>
    let (reply, bench) := bench.perform act
    (act, reply) :: history bench acts

end Bench

/-- A claim that was granted. -/
structure Grant (τ : Type) where
  name : String
  channel : UInt32
  kind : τ
  worker : Nat

/-- What a history comes to. -/
structure Account (τ M : Type) where
  /-- The claims that were granted, the latest first. -/
  grants : List (Grant τ) := []
  /-- All messages that went into a mailbox of a channel, the oldest first. -/
  pushed : UInt32 → Nat → List M := fun _ _ => []
  /-- All messages that came out. -/
  popped : UInt32 → Nat → List M := fun _ _ => []

namespace Account

def file (book : UInt32 → Nat → List M) (channel : UInt32) (box : Nat) (messages : List M) :
    UInt32 → Nat → List M :=
  fun c b => if c = channel ∧ b = box then book c b ++ messages else book c b

def on (account : Account τ M) (channel : UInt32) : List (Grant τ) :=
  account.grants.filter (·.channel = channel)

theorem mem_on {account : Account τ M} {channel : UInt32} {grant : Grant τ} :
    grant ∈ account.on channel ↔ grant ∈ account.grants ∧ grant.channel = channel := by
  simp [on]

/-- The claim that gave a handle its name. A later claim takes the name over. -/
def grant? (account : Account τ M) (name : String) : Option (Grant τ) :=
  account.grants.find? (·.name = name)

/-- The claim behind a handle, if there are mailboxes of that number. -/
def reach (workers : Nat) (account : Account τ M) (name : String) (box : Nat) :
    Except HandleError (Grant τ) :=
  match account.grant? name with
  | none => .error .noHandle
  | some grant => if box < workers then .ok grant else .error .noBox

/-- What becomes of a claim. -/
def verdict [DecidableEq τ] (workers : Nat) (account : Account τ M) (channel : UInt32) (kind : τ)
    (worker : Nat) : Except ClaimError Nat :=
  if workers ≤ worker then .error .workerOutOfRange
  else if ∃ grant ∈ account.on channel, grant.kind ≠ kind then .error .otherKind
  else if ∃ grant ∈ account.on channel, grant.worker = worker then .error .alreadyClaimed
  else .ok workers

/-- A claim is granted to a worker there is, for a channel of its kind, unless the worker has it
already. -/
theorem verdict_eq_ok [DecidableEq τ] {workers : Nat} (account : Account τ M) {channel : UInt32}
    {kind : τ} {worker : Nat} :
    account.verdict workers channel kind worker = .ok workers ↔
      worker < workers ∧ ∀ grant ∈ account.grants, grant.channel = channel →
        grant.kind = kind ∧ grant.worker ≠ worker := by
  unfold verdict
  split
  · rename_i hRange
    simp only [reduceCtorEq, false_iff]
    exact fun h => absurd h.1 (Nat.not_lt.mpr hRange)
  · rename_i hRange
    split
    · rename_i hOther
      obtain ⟨grant, hGrant, hKind⟩ := hOther
      simp only [reduceCtorEq, false_iff]
      exact fun h => hKind (h.2 grant (mem_on.mp hGrant).1 (mem_on.mp hGrant).2).1
    · rename_i hSame
      split
      · rename_i hAgain
        obtain ⟨grant, hGrant, hWorker⟩ := hAgain
        simp only [reduceCtorEq, false_iff]
        exact fun h => (h.2 grant (mem_on.mp hGrant).1 (mem_on.mp hGrant).2).2 hWorker
      · rename_i hFresh
        refine ⟨fun _ => ⟨Nat.lt_of_not_le hRange, fun grant hGrant hChannel => ?_⟩, fun _ => rfl⟩
        have hOn : grant ∈ account.on channel := mem_on.mpr ⟨hGrant, hChannel⟩
        exact ⟨Decidable.byContradiction fun hKind => hSame ⟨grant, hOn, hKind⟩,
          fun hWorker => hFresh ⟨grant, hOn, hWorker⟩⟩

/-- What a fabric answers, going by its history. -/
def reply [DecidableEq τ] (workers : Nat) (account : Account τ M) : Bench.Act τ M → Bench.Reply M
  | .claim _ channel kind worker => .claimed (account.verdict workers channel kind worker)
  | .push name box _ => .pushed ((account.reach workers name box).map fun _ => ())
  | .pop name box => .popped ((account.reach workers name box).map fun grant =>
      (account.pushed grant.channel box)[(account.popped grant.channel box).length]?)

def grant (account : Account τ M) (grant : Grant τ) : Account τ M :=
  { account with grants := grant :: account.grants }

/-- A grant is booked on its own channel. -/
theorem on_grant_self (account : Account τ M) (grant : Grant τ) :
    (account.grant grant).on grant.channel = grant :: account.on grant.channel := by
  simp [Account.grant, on]

/-- A grant is not booked on any other channel. -/
theorem on_grant_of_ne {grant : Grant τ} {channel : UInt32} (h : channel ≠ grant.channel)
    (account : Account τ M) : (account.grant grant).on channel = account.on channel := by
  simp [Account.grant, on, Ne.symm h]

/-- Takes an act and its reply into account. -/
def enter (account : Account τ M) : Bench.Act τ M × Bench.Reply M → Account τ M
  | (.claim name channel kind worker, .claimed (.ok _)) =>
    account.grant { name, channel, kind, worker }
  | (.push name box message, .pushed (.ok _)) =>
    match account.grant? name with
    | some grant => { account with pushed := file account.pushed grant.channel box [message] }
    | none => account
  | (.pop name box, .popped (.ok message)) =>
    match account.grant? name with
    | some grant => { account with popped := file account.popped grant.channel box message.toList }
    | none => account
  | _ => account

def ofHistory (history : List (Bench.Act τ M × Bench.Reply M)) : Account τ M :=
  history.foldl enter {}

end Account

namespace Fabric

/-- The fabric is as the account says. -/
structure Mirrors (fabric : Fabric τ M) (account : Account τ M) : Prop where
  regular : fabric.Regular
  unclaimed : ∀ channel, fabric.channel? channel = none → account.on channel = []
  claimed : ∀ channel found, fabric.channel? channel = some found →
    account.on channel ≠ [] ∧ (∀ grant ∈ account.on channel, grant.kind = found.kind) ∧
      found.claimants = (account.on channel).map (·.worker)
  waiting : ∀ channel worker,
    account.popped channel worker ++ fabric.box channel worker = account.pushed channel worker

variable {fabric opened : Fabric τ M} {account : Account τ M}

/-- A fabric without channels mirrors an account without entries. -/
theorem mirrors_empty (workers : Nat) : ({ workers } : Fabric τ M).Mirrors {} where
  regular := by
    intro channel found hFound
    cases hFound
  unclaimed _ _ := rfl
  claimed _ _ hFound := by cases hFound
  waiting _ _ := rfl

namespace Mirrors

/-- An edit of a mailbox goes with entries in the books of that mailbox. -/
theorem edit (h : fabric.Mirrors account) {pushed popped : UInt32 → Nat → List M}
    (channel : UInt32) (worker : Nat) (change : List M → List M)
    (hWaiting : ∀ c w, popped c w ++ (fabric.editBox channel worker change).box c w = pushed c w) :
    (fabric.editBox channel worker change).Mirrors { account with pushed, popped } where
  regular := h.regular.editBox channel worker change
  unclaimed := by
    intro c hNone
    rw [channel?_editBox] at hNone
    refine h.unclaimed c ?_
    split at hNone
    · exact Option.map_eq_none_iff.mp hNone
    · exact hNone
  claimed := by
    intro c found hFound
    rw [channel?_editBox] at hFound
    split at hFound
    · obtain ⟨before, hBefore, hEq⟩ := Option.map_eq_some_iff.mp hFound
      rw [← hEq]
      exact h.claimed c before hBefore
    · exact h.claimed c found hFound
  waiting := hWaiting

/-- There is a mailbox behind a grant for each worker. -/
theorem box?_isSome (h : fabric.Mirrors account) {grant : Grant τ} (hGrant : grant ∈ account.grants)
    {worker : Nat} (hWorker : worker < fabric.workers) :
    (fabric.box? grant.channel worker).isSome := by
  have hOn : grant ∈ account.on grant.channel := Account.mem_on.mpr ⟨hGrant, rfl⟩
  cases hFound : fabric.channel? grant.channel with
  | none => simp [h.unclaimed _ hFound] at hOn
  | some found =>
      have hLength : worker < found.boxes.length := by
        rw [h.regular _ found hFound]
        exact hWorker
      rw [box?, hFound, Option.bind_some, List.getElem?_eq_getElem hLength, Option.isSome_some]

/-- A delivery is a push in the account. -/
theorem deliver (h : fabric.Mirrors account) {grant : Grant τ} (hGrant : grant ∈ account.grants)
    {worker : Nat} (hWorker : worker < fabric.workers) (message : M) :
    (fabric.deliver grant.channel worker message).Mirrors
      { account with
        pushed := Account.file account.pushed grant.channel worker [message] } := by
  refine h.edit grant.channel worker (· ++ [message]) fun c w => ?_
  by_cases hHere : c = grant.channel ∧ w = worker
  · obtain ⟨rfl, rfl⟩ := hHere
    rw [box_editBox_self (h.box?_isSome hGrant hWorker), Account.file, if_pos ⟨rfl, rfl⟩,
      ← List.append_assoc, h.waiting]
  · rw [box_editBox_of_ne fun hSame => hHere ⟨hSame.1.symm, hSame.2.symm⟩, Account.file,
      if_neg hHere, h.waiting]

/-- A mailbox holds what went in and has not come out. -/
theorem head? (h : fabric.Mirrors account) (channel : UInt32) (worker : Nat) :
    (fabric.box channel worker).head? =
      (account.pushed channel worker)[(account.popped channel worker).length]? := by
  rw [← h.waiting, List.getElem?_append_right (Nat.le_refl _), Nat.sub_self,
    List.head?_eq_getElem?]

/-- Taking a message is a pop in the account. -/
theorem take (h : fabric.Mirrors account) (channel : UInt32) (worker : Nat) :
    (fabric.take channel worker).2.Mirrors
      { account with
        popped :=
          Account.file account.popped channel worker (fabric.take channel worker).1.toList } := by
  refine h.edit channel worker List.tail fun c w => ?_
  by_cases hHere : c = channel ∧ w = worker
  · obtain ⟨rfl, rfl⟩ := hHere
    have hTail : (fabric.editBox c w List.tail).box c w = (fabric.box c w).tail :=
      box_take_self fabric c w
    rw [hTail, Account.file, if_pos ⟨rfl, rfl⟩, ← h.waiting, List.append_assoc]
    simp only [take_eq]
    cases fabric.box c w <;> rfl
  · rw [box_editBox_of_ne fun hSame => hHere ⟨hSame.1.symm, hSame.2.symm⟩, Account.file,
      if_neg hHere, h.waiting]

variable [DecidableEq τ] {channel : UInt32} {kind : τ} {worker : Nat}

/-- The history decides on a claim. -/
theorem claim_eq (h : fabric.Mirrors account) (channel : UInt32) (kind : τ) (worker : Nat) :
    (fabric.claim channel kind worker).map (·.workers) =
      account.verdict fabric.workers channel kind worker := by
  unfold claim Account.verdict
  split
  · rfl
  · cases hFound : fabric.channel? channel with
    | none => simp [h.unclaimed channel hFound, Except.map]
    | some found =>
        obtain ⟨hSome, hKind, hClaimants⟩ := h.claimed channel found hFound
        obtain ⟨grant, hGrant⟩ := List.exists_mem_of_ne_nil _ hSome
        have hOther : (∃ grant ∈ account.on channel, grant.kind ≠ kind) ↔ found.kind ≠ kind := by
          constructor
          · rintro ⟨other, hOther, hNe⟩
            rwa [hKind other hOther] at hNe
          · intro hNe
            exact ⟨grant, hGrant, by rwa [hKind grant hGrant]⟩
        have hAgain : (∃ grant ∈ account.on channel, grant.worker = worker) ↔
            worker ∈ found.claimants := by
          rw [hClaimants, List.mem_map]
        simp only [hOther, hAgain]
        split
        · rfl
        · split <;> rfl

/-- A claim that is granted goes with an entry among the grants. -/
theorem claim (h : fabric.Mirrors account) (name : String)
    (hClaim : fabric.claim channel kind worker = .ok opened) :
    opened.Mirrors (account.grant { name, channel, kind, worker }) where
  regular := h.regular.claim hClaim
  unclaimed := by
    intro c hNone
    rw [channel?_of_claim hClaim] at hNone
    split at hNone
    · cases hNone
    · rename_i hNe
      rw [Account.on_grant_of_ne hNe]
      exact h.unclaimed c hNone
  claimed := by
    intro c found hFound
    rw [channel?_of_claim hClaim] at hFound
    split at hFound
    · rename_i hSame
      subst hSame
      rw [← Option.some.inj hFound, Account.on_grant_self, joined]
      cases hBefore : fabric.channel? c with
      | none => simp [h.unclaimed c hBefore]
      | some before =>
          obtain ⟨-, hKind, hClaimants⟩ := h.claimed c before hBefore
          have hSameKind := kind_of_claim hClaim hBefore
          refine ⟨List.cons_ne_nil _ _, ?_, congrArg (worker :: ·) hClaimants⟩
          intro grant hGrant
          rcases List.mem_cons.mp hGrant with hNew | hOld
          · rw [hNew, hSameKind]
          · exact hKind grant hOld
    · rename_i hNe
      rw [Account.on_grant_of_ne hNe]
      exact h.claimed c found hFound
  waiting := by
    intro c w
    rw [box_claim hClaim]
    exact h.waiting c w

end Mirrors

end Fabric

namespace Bench

def account [DecidableEq τ] (bench : Bench τ M) (acts : List (Act τ M)) : Account τ M :=
  .ofHistory (bench.history acts)

/-- A bench with a single fabric, which is as the account says. -/
structure Matches (fabric : Fabric τ M) (account : Account τ M) (bench : Bench τ M) : Prop where
  fabrics : bench.fabrics = #[fabric]
  current : bench.current = some 0
  handles : bench.handles = account.grants.map fun grant =>
    (grant.name, { fabric := 0, channel := grant.channel, kind := grant.kind })
  mirrors : fabric.Mirrors account

variable {fabric : Fabric τ M} {account : Account τ M} {bench : Bench τ M}

/-- A new fabric has no history. -/
theorem matches_replace {workers count : Nat}
    (h : ({} : Bench τ M).replace workers = (.ok count, bench)) :
    count = workers ∧ Matches { workers } {} bench := by
  unfold replace at h
  cases hCreate : Fabric.create (τ := τ) (M := M) workers with
  | error error =>
      rw [hCreate] at h
      cases h
  | ok fabric =>
      rw [hCreate] at h
      cases h
      rw [(Fabric.create_eq hCreate).2.2]
      exact ⟨rfl, rfl, rfl, rfl, Fabric.mirrors_empty workers⟩

section Claim

variable [DecidableEq τ] {name : String} {channel : UInt32} {kind : τ} {worker : Nat}

theorem claim_of_fabric {current : Nat} (hCurrent : bench.current = some current)
    (hFabric : bench.fabrics[current]? = some fabric) :
    bench.claim name channel kind worker =
      match fabric.claim channel kind worker with
      | .ok claimed =>
        (.ok claimed.workers,
          { bench with
            fabrics := bench.fabrics.modify current fun _ => claimed
            handles := (name, { fabric := current, channel, kind }) :: bench.handles })
      | .error error => (.error error, bench) := by
  have hReached : bench.fabric? = some fabric := by
    rw [fabric?, hCurrent, Option.bind_some, hFabric]
  unfold claim
  split
  · rename_i index found hIndex hFound
    cases hCurrent.symm.trans hIndex
    cases hReached.symm.trans hFound
    rfl
  · rename_i hNothing
    exact (hNothing current fabric hCurrent hReached).elim

/-- Without a fabric there are no workers to claim anything. -/
theorem claim_of_no_fabric (h : bench.fabric? = none) :
    bench.claim name channel kind worker = (.error .workerOutOfRange, bench) := by
  rw [claim, h]
  cases bench.current <;> rfl

/-- A claim that is refused changes nothing. -/
theorem claim_refused {error : ClaimError}
    (h : (bench.claim name channel kind worker).1 = .error error) :
    (bench.claim name channel kind worker).2 = bench := by
  cases hCurrent : bench.current with
  | none => rw [claim_of_no_fabric (by rw [fabric?, hCurrent]; rfl)]
  | some current =>
      cases hFabric : bench.fabrics[current]? with
      | none => rw [claim_of_no_fabric (by rw [fabric?, hCurrent]; exact hFabric)]
      | some fabric =>
          rw [claim_of_fabric hCurrent hFabric] at h ⊢
          cases hClaim : fabric.claim channel kind worker with
          | error error => rfl
          | ok claimed =>
              rw [hClaim] at h
              cases h

end Claim

namespace Matches

/-- The bench knows the handles that were granted. -/
theorem handle? (h : Matches fabric account bench) (name : String) :
    bench.handle? name = (account.grant? name).map fun grant =>
      { fabric := 0, channel := grant.channel, kind := grant.kind } := by
  rw [Bench.handle?, h.handles, Account.grant?]
  induction account.grants with
  | nil => rfl
  | cons grant rest ih =>
      rw [List.map_cons, List.lookup_cons, List.find?_cons, ih]
      by_cases hName : name = grant.name
      · simp [hName]
      · simp [beq_eq_false_iff_ne.mpr hName, Ne.symm hName]

/-- A box is reached on the bench where the account reaches it. -/
theorem reach (h : Matches fabric account bench) (name : String) (box : Nat) :
    bench.reach name box = (account.reach fabric.workers name box).map fun grant =>
      ({ fabric := 0, channel := grant.channel, kind := grant.kind }, fabric) := by
  rw [Bench.reach, h.handle?, Account.reach]
  cases account.grant? name with
  | none => rfl
  | some grant =>
      have hFabric : bench.fabrics[0]? = some fabric := by rw [h.fabrics]; rfl
      simp only [Option.map_some, hFabric]
      split <;> rfl

/-- What is behind a handle is behind a claim that was granted. -/
theorem grant_of_reach {workers : Nat} {name : String} {box : Nat} {grant : Grant τ}
    (h : account.reach workers name box = .ok grant) :
    account.grant? name = some grant ∧ grant ∈ account.grants ∧ box < workers := by
  unfold Account.reach at h
  cases hGrant : account.grant? name with
  | none =>
      rw [hGrant] at h
      cases h
  | some found =>
      simp only [hGrant] at h
      split at h
      · rename_i hBox
        cases h
        exact ⟨rfl, List.mem_of_find?_eq_some hGrant, hBox⟩
      · cases h

/-- A push on the bench is answered by the account and entered in it. -/
theorem push (h : Matches fabric account bench) (name : String) (box : Nat) (message : M) :
    (bench.push name box message).1 = (account.reach fabric.workers name box).map (fun _ => ()) ∧
      ∃ fabric', fabric'.workers = fabric.workers ∧
        Matches fabric'
          (account.enter (.push name box message, .pushed (bench.push name box message).1))
          (bench.push name box message).2 := by
  simp only [Bench.push, h.reach]
  cases hReach : account.reach fabric.workers name box with
  | error error => exact ⟨rfl, fabric, rfl, h⟩
  | ok grant =>
      obtain ⟨hName, hGrant, hBox⟩ := grant_of_reach hReach
      refine ⟨rfl, fabric.deliver grant.channel box message, rfl, ?_⟩
      simp only [Except.map, Account.enter, hName]
      refine ⟨by simp [h.fabrics], h.current, h.handles, ?_⟩
      exact h.mirrors.deliver hGrant hBox message

/-- A pop gives the oldest message that was pushed into the box and not popped yet. -/
theorem pop (h : Matches fabric account bench) (name : String) (box : Nat) :
    (bench.pop name box).1 = (account.reach fabric.workers name box).map (fun grant =>
        (account.pushed grant.channel box)[(account.popped grant.channel box).length]?) ∧
      ∃ fabric', fabric'.workers = fabric.workers ∧
        Matches fabric' (account.enter (.pop name box, .popped (bench.pop name box).1))
          (bench.pop name box).2 := by
  simp only [Bench.pop, h.reach]
  cases hReach : account.reach fabric.workers name box with
  | error error => exact ⟨rfl, fabric, rfl, h⟩
  | ok grant =>
      obtain ⟨hName, hGrant, hBox⟩ := grant_of_reach hReach
      refine ⟨congrArg Except.ok (h.mirrors.head? grant.channel box),
        (fabric.take grant.channel box).2, rfl, ?_⟩
      simp only [Except.map, Account.enter, hName]
      refine ⟨by simp [h.fabrics], h.current, h.handles, ?_⟩
      exact h.mirrors.take grant.channel box

variable [DecidableEq τ]

theorem claim (h : Matches fabric account bench) (name : String) (channel : UInt32) (kind : τ)
    (worker : Nat) :
    (bench.claim name channel kind worker).1 =
        account.verdict fabric.workers channel kind worker ∧
      ∃ fabric', fabric'.workers = fabric.workers ∧
        Matches fabric'
          (account.enter (.claim name channel kind worker,
            .claimed (bench.claim name channel kind worker).1))
          (bench.claim name channel kind worker).2 := by
  have hFabric : bench.fabrics[0]? = some fabric := by rw [h.fabrics]; rfl
  rw [← h.mirrors.claim_eq, claim_of_fabric h.current hFabric]
  cases hClaim : fabric.claim channel kind worker with
  | error error => exact ⟨rfl, fabric, rfl, h⟩
  | ok claimed =>
      refine ⟨rfl, claimed, Fabric.claim_workers hClaim, ?_, h.current, ?_, ?_⟩
      · simp [h.fabrics]
      · simp [h.handles, Account.enter, Account.grant]
      · exact h.mirrors.claim name hClaim

/-- One act: the account tells the reply, and it stays true. -/
theorem perform (h : Matches fabric account bench) (act : Act τ M) :
    (bench.perform act).1 = account.reply fabric.workers act ∧
      ∃ fabric', fabric'.workers = fabric.workers ∧
        Matches fabric' (account.enter (act, (bench.perform act).1)) (bench.perform act).2 := by
  cases act with
  | claim name channel kind worker =>
      obtain ⟨hReply, hAfter⟩ := h.claim name channel kind worker
      exact ⟨congrArg Reply.claimed hReply, hAfter⟩
  | push name box message =>
      obtain ⟨hReply, hAfter⟩ := h.push name box message
      exact ⟨congrArg Reply.pushed hReply, hAfter⟩
  | pop name box =>
      obtain ⟨hReply, hAfter⟩ := h.pop name box
      exact ⟨congrArg Reply.popped hReply, hAfter⟩

/-- Acts in turn keep the account true. -/
theorem run (h : Matches fabric account bench) (acts : List (Act τ M)) :
    ∃ fabric', fabric'.workers = fabric.workers ∧
      Matches fabric' ((bench.history acts).foldl Account.enter account) (bench.after acts) := by
  induction acts generalizing fabric account bench with
  | nil => exact ⟨fabric, rfl, h⟩
  | cons act acts ih =>
      obtain ⟨-, next, hNext, hMatches⟩ := h.perform act
      obtain ⟨last, hLast, hAfter⟩ := ih hMatches
      exact ⟨last, hLast.trans hNext, hAfter⟩

end Matches

/-- After any history of claims, pushes and pops on a new fabric. A claim is granted if the worker
is in range, has not been granted the channel before, and everyone granted the channel carries the
same kind of messages; otherwise it is refused and nothing changes. A push reaches the mailbox of a
channel through any of its handles, and pops through any of them take out what was pushed, each
message once and in order. -/
theorem claims_by_history [DecidableEq τ] {workers count : Nat} {bench : Bench τ M}
    (hFabric : ({} : Bench τ M).replace workers = (.ok count, bench)) (acts : List (Act τ M)) :
    let account := bench.account acts
    let reached := bench.after acts
    (∀ act, (reached.perform act).1 = account.reply workers act) ∧
      (∀ channel kind worker, account.verdict workers channel kind worker = .ok workers ↔
        worker < workers ∧ ∀ grant ∈ account.grants, grant.channel = channel →
          grant.kind = kind ∧ grant.worker ≠ worker) ∧
      (∀ name channel kind worker error,
        account.verdict workers channel kind worker = .error error →
          (reached.perform (.claim name channel kind worker)).2 = reached) ∧
      ∀ channel box, account.popped channel box <+: account.pushed channel box := by
  intro account reached
  obtain ⟨fabric, hWorkers, hMatches⟩ := (matches_replace hFabric).2.run acts
  have hReply (act : Act τ M) : (reached.perform act).1 = account.reply workers act := by
    rw [(hMatches.perform act).1, hWorkers]
    rfl
  refine ⟨hReply, fun channel kind worker => account.verdict_eq_ok, ?_, ?_⟩
  · intro name channel kind worker error hVerdict
    have hClaim := hReply (.claim name channel kind worker)
    exact claim_refused ((Reply.claimed.inj hClaim).trans hVerdict)
  · intro channel box
    exact ⟨fabric.box channel box, hMatches.mirrors.waiting channel box⟩

/-- The second worker receives a message from before its claim, which another claim does not
prevent. -/
def sharing : List (Act Bool Nat) :=
  [.claim "first" 5 true 0, .push "first" 1 7, .claim "other" 5 false 1, .push "first" 1 8,
    .claim "second" 5 true 1, .pop "second" 1]

theorem claims_by_history_sharing :
    let bench := (({} : Bench Bool Nat).replace 2).2
    let reached := bench.after sharing
    ({} : Bench Bool Nat).replace 2 = (.ok 2, bench) ∧
      (reached.perform (.pop "first" 1)).1 = .popped (.ok (some 8)) ∧
      (reached.perform (.pop "other" 1)).1 = .popped (.error .noHandle) ∧
      (reached.perform (.claim "again" 5 true 0)).1 = .claimed (.error .alreadyClaimed) ∧
      (reached.perform (.claim "again" 5 true 0)).2 = reached := by
  intro bench reached
  have hFabric : ({} : Bench Bool Nat).replace 2 = (.ok 2, bench) := rfl
  obtain ⟨hReply, -, hRefused, -⟩ := claims_by_history hFabric sharing
  refine ⟨hFabric, ?_, ?_, ?_, ?_⟩
  · rw [hReply]
    rfl
  · rw [hReply]
    rfl
  · rw [hReply]
    rfl
  · exact hRefused "again" 5 true 0 .alreadyClaimed rfl

end Bench

end Dataflow
