import Dataflow.Proofs.Decimal
import Dataflow.Trace

/-! The text log of events. Every event gives one line, which is short enough to stand in the log
whole, and the line tells the worker and all of the event. Lines end at the first line feed, so the
text as a whole tells the events in their order. -/
namespace Dataflow

open Decimal (render_append_word_inj isDigit_of_mem_render length_render_le_iff)

/-- An event reported to the text sink of a worker, and the level of the log at that time. -/
structure TextEntry where
  level : Level
  worker : UInt32
  event : Event

def TextEntry.told (entry : TextEntry) : UInt32 × Event := (entry.worker, entry.event)

def TextEntry.line (entry : TextEntry) : Log.Line where
  level := .trace
  worker := entry.worker
  channel := entry.event.channel
  text := entry.event.describe

namespace Journal

def enter (journal : Journal) (entry : TextEntry) : Journal :=
  (journal.setLevel entry.level).note entry.event (.text entry.worker)

def enterAll (journal : Journal) (entries : List TextEntry) : Journal :=
  entries.foldl Journal.enter journal

/-- What has been written to the text log between two times. -/
def writtenSince (before after : Journal) : Bytes :=
  after.logger.output.drop before.logger.output.length

end Journal

/-! ### No line is cut -/

/-- No description of an event comes near the limit of a line. -/
theorem Event.describe_length_le (event : Event) : event.describe.length ≤ 84 := by
  have hNarrow (n : UInt32) : (Decimal.render n.toNat).length ≤ 10 :=
    (length_render_le_iff (by decide)).mpr (Nat.lt_of_lt_of_le n.toNat_lt (by decide))
  have hWide (n : UInt64) : (Decimal.render n.toNat).length ≤ 20 :=
    (length_render_le_iff (by decide)).mpr (Nat.lt_of_lt_of_le n.toNat_lt (by decide))
  have hSource := hNarrow event.source
  have hTarget := hNarrow event.target
  have hSeq := hWide event.seq
  have hLength := hWide event.length
  have hWord : (if event.isSend then Bytes.ascii "send" else Bytes.ascii "recv").length = 4 := by
    split <;> rfl
  have hNames : (Bytes.ascii " src=").length = 5 ∧ (Bytes.ascii " dst=").length = 5 ∧
      (Bytes.ascii " seq=").length = 5 ∧ (Bytes.ascii " len=").length = 5 := ⟨rfl, rfl, rfl, rfl⟩
  simp only [Event.describe, List.length_append]
  omega

/-- No description is cut at a zero byte. -/
theorem Event.zero_notMem_describe (event : Event) : 0 ∉ event.describe := by
  have hNumeral (n : Nat) : (0 : UInt8) ∉ Decimal.render n :=
    fun hMem => absurd (isDigit_of_mem_render hMem) (by decide)
  have hWord : (0 : UInt8) ∉ if event.isSend then Bytes.ascii "send" else Bytes.ascii "recv" := by
    split <;> decide
  simp only [Event.describe, List.mem_append, hNumeral, hWord, or_false, false_or]
  decide

/-- The words of an event stand in the log as they are, whatever its numbers. -/
theorem Event.clip_describe (event : Event) : Log.clip event.describe = event.describe := by
  rw [Log.clip, Bytes.untilZero_of_notMem event.zero_notMem_describe]
  exact List.take_of_length_le (Nat.le_trans event.describe_length_le (by decide))

/-! ### A line tells the entry -/

theorem direction_inj : ∀ isSend isSend' : Bool,
    (if isSend then Bytes.ascii "send" else Bytes.ascii "recv") =
      (if isSend' then Bytes.ascii "send" else Bytes.ascii "recv") → isSend = isSend' := by
  decide

/-- A line tells its entry, and where it ends. -/
theorem TextEntry.line_render_inj {entry other : TextEntry} {rest rest' : Bytes}
    (h : entry.line.render ++ rest = other.line.render ++ rest') :
    entry.told = other.told ∧ rest = rest' := by
  obtain ⟨level, worker, isSend, channel, source, target, seq, length⟩ := entry
  obtain ⟨level', worker', isSend', channel', source', target', seq', length'⟩ := other
  simp only [TextEntry.line, Log.Line.render, Event.describe, List.append_assoc,
    List.append_cancel_left_eq] at h
  rw [render_append_word_inj rfl, render_append_word_inj rfl] at h
  obtain ⟨hWorker, hChannel, h⟩ := h
  obtain ⟨hWord, h⟩ := List.append_inj h (by cases isSend <;> cases isSend' <;> rfl)
  rw [List.append_cancel_left_eq, render_append_word_inj rfl, render_append_word_inj rfl,
    render_append_word_inj rfl, render_append_word_inj rfl] at h
  obtain ⟨hSource, hTarget, hSeq, hLength, hRest⟩ := h
  have hSend : isSend = isSend' := direction_inj isSend isSend' hWord
  obtain rfl := UInt32.toNat_inj.mp hWorker
  obtain rfl := UInt32.toNat_inj.mp hChannel
  obtain rfl := UInt32.toNat_inj.mp hSource
  obtain rfl := UInt32.toNat_inj.mp hTarget
  obtain rfl := UInt64.toNat_inj.mp hSeq
  obtain rfl := UInt64.toNat_inj.mp hLength
  exact ⟨by rw [hSend]; rfl, hRest⟩

theorem TextEntry.line_render_ne_nil (entry : TextEntry) : entry.line.render ≠ [] :=
  List.append_ne_nil_of_right_ne_nil _ (List.cons_ne_nil _ _)

/-- The lines of entries, written one after the other, tell the entries. -/
theorem TextEntry.told_of_text {entries others : List TextEntry}
    (h : (entries.map TextEntry.line).flatMap Log.Line.render =
      (others.map TextEntry.line).flatMap Log.Line.render) :
    entries.map TextEntry.told = others.map TextEntry.told := by
  induction entries generalizing others with
  | nil =>
      cases others with
      | nil => rfl
      | cons other others =>
          exact absurd (List.append_eq_nil_iff.mp h.symm).1 other.line_render_ne_nil
  | cons entry entries ih =>
      cases others with
      | nil => exact absurd (List.append_eq_nil_iff.mp h).1 entry.line_render_ne_nil
      | cons other others =>
          obtain ⟨hTold, hRest⟩ := TextEntry.line_render_inj h
          rw [List.map_cons, List.map_cons, hTold, ih hRest]

/-! ### What entries add to the log -/

namespace Journal

theorem enter_logger {journal : Journal} (hAttached : journal.logger.attached = true)
    {entry : TextEntry} (hLevel : entry.level.enables .trace = true) :
    (journal.enter entry).logger.attached = true ∧
      (journal.enter entry).logger.lines.toList = journal.logger.lines.toList ++ [entry.line] := by
  simp [Journal.enter, setLevel, note, Journal.log, Log.Logger.log, hLevel, hAttached,
    Event.clip_describe, TextEntry.line]

/-- Entries are logged in their order, one line each. -/
theorem enterAll_logger {journal : Journal} (hAttached : journal.logger.attached = true)
    {entries : List TextEntry} (hLevels : ∀ entry ∈ entries, entry.level.enables .trace = true) :
    (journal.enterAll entries).logger.lines.toList =
      journal.logger.lines.toList ++ entries.map TextEntry.line := by
  induction entries generalizing journal with
  | nil => exact (List.append_nil _).symm
  | cons entry entries ih =>
      rw [List.forall_mem_cons] at hLevels
      obtain ⟨hStill, hLine⟩ := enter_logger hAttached hLevels.1
      change ((journal.enter entry).enterAll entries).logger.lines.toList = _
      rw [ih hStill hLevels.2, hLine, List.append_assoc, List.singleton_append, List.map_cons]

/-- What is written meanwhile are the lines of the entries. -/
theorem writtenSince_enterAll {journal : Journal} (hAttached : journal.logger.attached = true)
    {entries : List TextEntry} (hLevels : ∀ entry ∈ entries, entry.level.enables .trace = true) :
    journal.writtenSince (journal.enterAll entries) =
      (entries.map TextEntry.line).flatMap Log.Line.render := by
  rw [writtenSince, Log.Logger.output, Log.Logger.output, enterAll_logger hAttached hLevels,
    List.flatMap_append]
  exact List.drop_left

/-- The text log tells all that is reported to it as long as it has an output and its levels let
events through, and the levels may change: from equal texts the same workers and the same events can
be read, in the same order. Every event gets a line of its own that holds all its words; they are
never too many for a line. -/
theorem text_tells_events {journal journal' : Journal} {entries entries' : List TextEntry}
    (hAttached : journal.logger.attached = true) (hAttached' : journal'.logger.attached = true)
    (hLevels : ∀ entry ∈ entries, entry.level.enables .trace = true)
    (hLevels' : ∀ entry ∈ entries', entry.level.enables .trace = true) :
    (journal.writtenSince (journal.enterAll entries) =
        journal'.writtenSince (journal'.enterAll entries') →
      entries.map TextEntry.told = entries'.map TextEntry.told) ∧
    (journal.enterAll entries).logger.lines.toList =
      journal.logger.lines.toList ++ entries.map TextEntry.line ∧
    ∀ event : Event, event.describe.length ≤ Log.textLimit ∧
      Log.clip event.describe = event.describe := by
  refine ⟨fun hText => ?_, enterAll_logger hAttached hLevels, fun event => ?_⟩
  · rw [writtenSince_enterAll hAttached hLevels, writtenSince_enterAll hAttached' hLevels'] at hText
    exact TextEntry.told_of_text hText
  · exact ⟨Nat.le_trans event.describe_length_le (by decide), event.clip_describe⟩

/-- A message with the largest numbers on its way out of one worker. -/
def sentEntry : TextEntry where
  level := .trace
  worker := 4294967295
  event :=
    { isSend := true, channel := 9, source := 4294967295, target := 1
      seq := 18446744073709551615, length := 18446744073709551615 }

/-- The first message on its way into another worker, at a level that lets through even more. -/
def receivedEntry : TextEntry where
  level := ⟨7⟩
  worker := 1
  event := { channel := 9, source := 4294967295, target := 1 }

/-- Two entries in one order and in the other. -/
theorem text_tells_events_swapped :
    let journal : Journal := {}
    journal.writtenSince (journal.enterAll [sentEntry, receivedEntry]) ≠
        journal.writtenSince (journal.enterAll [receivedEntry, sentEntry]) ∧
      (journal.enterAll [sentEntry, receivedEntry]).logger.lines.toList =
        [sentEntry.line, receivedEntry.line] := by
  intro journal
  obtain ⟨hText, hLines, -⟩ := @text_tells_events journal journal [sentEntry, receivedEntry]
    [receivedEntry, sentEntry] rfl rfl (by decide) (by decide)
  refine ⟨fun hSame => ?_, hLines⟩
  exact absurd (hText hSame) (by decide)

end Journal

end Dataflow
