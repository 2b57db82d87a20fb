import Dataflow.Wire.Envelope
import Dataflow.Proofs.Wire.Codec

/-! Messages on the wire. A buffer is accepted if and only if it is the encoding of a message all of
whose lengths fit, and the error of a refused buffer tells how it relates to such encodings. -/
namespace Dataflow.Wire

namespace Container

/-- Whether the number of records and all lengths inside them can be written in four bytes. -/
def Fits : (c : Container) → List c.item.Val → Prop
  | vec item, records => (Ty.vec item).Fits records
  | text, records => records.length < 2 ^ 32

def hasBool : Container → Bool
  | vec item => item.hasBool
  | text => false

/-- The characters of a text are its bytes as signed words. -/
theorem text_reads :
    (Reader.sized.andThen fun bytes => Reader.succeed (bytes.map UInt8.toInt8)).Reads
      (fun (records : List Int8) block =>
        records.length < 2 ^ 32 ∧ block = sizedBytes (records.map Int8.toUInt8)) False := by
  apply (Reader.sized_reads.andThen fun bytes _ _ => Reader.Reads.succeed _).congr
  · intro records block
    constructor
    · intro hWritten
      obtain ⟨bytes, left, right, ⟨hBound, rfl⟩, ⟨rfl, rfl⟩, rfl⟩ := hWritten
      have hBytes : (bytes.map UInt8.toInt8).map Int8.toUInt8 = bytes := by
        simp [Function.comp_def]
      rw [List.length_map, hBytes, List.append_nil]
      exact ⟨hBound, rfl⟩
    · intro hWritten
      obtain ⟨hBound, rfl⟩ := hWritten
      have hRecords : (records.map Int8.toUInt8).map UInt8.toInt8 = records := by
        simp [Function.comp_def]
      refine ⟨records.map Int8.toUInt8, _, [], ⟨?_, rfl⟩, ⟨hRecords.symm, rfl⟩,
        (List.append_nil _).symm⟩
      rwa [List.length_map]
  · simp

/-- A container is read from its encoding and from nothing else. -/
theorem decode_reads (c : Container) :
    c.decode.Reads (fun records block => c.Fits records ∧ block = c.encode records)
      (c.hasBool = true) := by
  cases c with
  | vec item => exact Wire.decode_reads (.vec item)
  | text => exact text_reads.congr (fun _ _ => Iff.rfl) False.elim

end Container

namespace Format

variable (format : Format)

/-- Whether every text and sequence of a message has fewer than `2 ^ 32` elements. -/
def Fits (message : format.Message) : Prop :=
  format.time.Fits message.time ∧ format.data.Fits message.data

def hasBool : Bool := format.time.hasBool || format.data.hasBool

/-- A message is read from its encoding and from nothing else. -/
theorem reader_reads :
    format.reader.Reads (fun message block => format.Fits message ∧ block = format.encode message)
      (format.hasBool = true) := by
  apply ((Reader.scalar_reads .u64).andThen fun seq _ _ =>
    (Reader.scalar_reads .u32).andThen fun source _ _ =>
    (Wire.decode_reads format.time).andThen fun time _ _ =>
    format.data.decode_reads.andThen fun data _ _ => Reader.Reads.succeed _).congr
  · intro message block
    constructor
    · intro hWritten
      obtain ⟨seq, _, _, rfl, ⟨source, _, _, rfl, ⟨time, _, _, ⟨hTime, rfl⟩, ⟨data, _, _,
        ⟨hData, rfl⟩, ⟨rfl, rfl⟩, rfl⟩, rfl⟩, rfl⟩, rfl⟩ := hWritten
      refine ⟨⟨hTime, hData⟩, ?_⟩
      simp only [encode, List.append_nil, List.append_assoc]
    · intro hWritten
      obtain ⟨⟨hTime, hData⟩, rfl⟩ := hWritten
      refine ⟨_, _, _, rfl, ⟨_, _, _, rfl, ⟨_, _, _, ⟨hTime, rfl⟩, ⟨_, _, [], ⟨hData, rfl⟩,
        ⟨rfl, rfl⟩, rfl⟩, rfl⟩, rfl⟩, ?_⟩
      simp only [encode, List.append_nil, List.append_assoc]
  · simp [hasBool]

variable {format}

theorem decode_of_ok {buffer rest : Bytes} {message : format.Message}
    (h : format.reader buffer = (.ok message, rest)) :
    format.decode buffer = if rest = [] then .ok message else .error .trailing := by
  cases rest with
  | nil => simp [decode, h]
  | cons b bytes => simp [decode, h]

theorem decode_of_error {buffer rest : Bytes} {error : ReadError}
    (h : format.reader buffer = (.error error, rest)) : format.decode buffer = .error error := by
  simp [decode, h]

/-- A message whose lengths fit is decoded as it was encoded. -/
theorem decode_encode {message : format.Message} (h : format.Fits message) :
    format.decode (format.encode message) = .ok message := by
  have hOutcome := format.reader_reads.accepts_append ⟨h, rfl⟩ []
  rw [List.append_nil] at hOutcome
  rw [decode_of_ok hOutcome, if_pos rfl]

/-- What is decoded is an encoding. -/
theorem eq_encode_of_decode {buffer : Bytes} {message : format.Message}
    (h : format.decode buffer = .ok message) :
    buffer = format.encode message ∧ format.Fits message := by
  cases hOutcome : format.reader buffer with
  | mk outcome rest =>
      cases outcome with
      | error error => simp [decode_of_error hOutcome] at h
      | ok found =>
          rw [decode_of_ok hOutcome] at h
          split at h
          · rename_i hRest
            obtain rfl := Except.ok.inj h
            subst hRest
            obtain ⟨block, ⟨hFits, rfl⟩, hBuffer⟩ :=
              (format.reader_reads.accepts _ _ _).mp hOutcome
            exact ⟨by rwa [List.append_nil] at hBuffer, hFits⟩
          · simp at h

/-- The decoder accepts exactly the encodings of messages whose lengths fit. Longer texts and
sequences are written with a wrong length, and what is then read is another message or none. -/
theorem decode_eq_ok_iff (format : Format) (buffer : Bytes) (message : format.Message) :
    format.decode buffer = .ok message ↔
      buffer = format.encode message ∧ format.Fits message := by
  constructor
  · exact eq_encode_of_decode
  · intro hEncoded
    obtain ⟨rfl, hFits⟩ := hEncoded
    exact decode_encode hFits

variable (format)

def Valid (buffer : Bytes) : Prop :=
  ∃ message, format.Fits message ∧ format.encode message = buffer

def Overlong (buffer : Bytes) : Prop :=
  ∃ block extra, format.Valid block ∧ extra ≠ [] ∧ buffer = block ++ extra

/-- A proper initial part of a valid buffer. -/
def Cut (buffer : Bytes) : Prop :=
  ∃ missing, missing ≠ [] ∧ format.Valid (buffer ++ missing)

/-- The buffer is refused with an error of this text. -/
def Refuses (buffer : Bytes) (text : String) : Prop :=
  ∃ error, format.decode buffer = .error error ∧ error.message = Bytes.ascii text

variable {format}

theorem valid_iff_decode {buffer : Bytes} :
    format.Valid buffer ↔ ∃ message, format.decode buffer = .ok message := by
  constructor
  · intro hValid
    obtain ⟨message, hFits, rfl⟩ := hValid
    exact ⟨message, decode_encode hFits⟩
  · intro hDecoded
    obtain ⟨message, h⟩ := hDecoded
    obtain ⟨hBuffer, hFits⟩ := eq_encode_of_decode h
    exact ⟨message, hFits, hBuffer.symm⟩

theorem not_valid_iff_decode {buffer : Bytes} :
    ¬ format.Valid buffer ↔ ∃ error, format.decode buffer = .error error := by
  rw [valid_iff_decode]
  cases format.decode buffer with
  | ok message => simp
  | error error => simp

/-- A buffer has trailing bytes if it goes on behind a message. -/
theorem decode_trailing_iff {buffer : Bytes} :
    format.decode buffer = .error .trailing ↔ format.Overlong buffer := by
  constructor
  · intro h
    cases hOutcome : format.reader buffer with
    | mk outcome rest =>
        cases outcome with
        | error error =>
            rw [decode_of_error hOutcome] at h
            obtain rfl := Except.error.inj h
            exact absurd (by rw [hOutcome]) (format.reader_reads.not_trailing buffer)
        | ok found =>
            obtain ⟨block, ⟨hFits, hBlock⟩, hBuffer⟩ :=
              (format.reader_reads.accepts _ _ _).mp hOutcome
            rw [decode_of_ok hOutcome] at h
            split at h
            · simp at h
            · rename_i hRest
              exact ⟨block, rest, ⟨found, hFits, hBlock.symm⟩, hRest, hBuffer⟩
  · intro hOverlong
    obtain ⟨block, extra, ⟨message, hFits, rfl⟩, hExtra, rfl⟩ := hOverlong
    have hOutcome := format.reader_reads.accepts_append ⟨hFits, rfl⟩ extra
    rw [decode_of_ok hOutcome, if_neg hExtra]

theorem decode_error_iff_reader {buffer : Bytes} {error : ReadError} (h : error ≠ .trailing) :
    format.decode buffer = .error error ↔ (format.reader buffer).1 = .error error := by
  cases hOutcome : format.reader buffer with
  | mk outcome rest =>
      cases outcome with
      | error found => simp [decode_of_error hOutcome]
      | ok found =>
          rw [decode_of_ok hOutcome]
          split <;> simp [h.symm]

/-- A buffer is truncated if it can be completed to a message. -/
theorem decode_truncated_iff {buffer : Bytes} :
    format.decode buffer = .error .truncated ↔ format.Cut buffer := by
  rw [decode_error_iff_reader (by decide), format.reader_reads.truncated]
  constructor
  · intro hCut
    obtain ⟨message, missing, hMissing, hFits, hBlock⟩ := hCut
    exact ⟨missing, hMissing, message, hFits, hBlock.symm⟩
  · intro hCut
    obtain ⟨missing, hMissing, message, hFits, hBlock⟩ := hCut
    exact ⟨message, missing, hMissing, hFits, hBlock.symm⟩

/-- Truth values are refused only where there are some. -/
theorem hasBool_of_decode_badBool {buffer : Bytes}
    (h : format.decode buffer = .error .badBool) : format.hasBool = true :=
  format.reader_reads.refuses buffer ((decode_error_iff_reader (by decide)).mp h)

/-- What is left is a buffer with a bad truth value. -/
theorem decode_badBool_iff {buffer : Bytes} :
    format.decode buffer = .error .badBool ↔
      ¬ format.Valid buffer ∧ ¬ format.Overlong buffer ∧ ¬ format.Cut buffer := by
  rw [not_valid_iff_decode, ← decode_trailing_iff, ← decode_truncated_iff]
  cases format.decode buffer with
  | ok message => simp
  | error error => cases error <;> simp

/-- The three errors have different texts. -/
theorem refuses_iff {buffer : Bytes} (error : ReadError) {text : String}
    (h : error.message = Bytes.ascii text) :
    format.Refuses buffer text ↔ format.decode buffer = .error error := by
  constructor
  · intro hRefused
    obtain ⟨found, hFound, hText⟩ := hRefused
    have hSame : found = error := by
      rw [← h] at hText
      cases found <;> cases error <;> first | rfl | exact absurd hText (by decide)
    rw [hFound, hSame]
  · intro hError
    exact ⟨error, hError, h⟩

/-- What an error says about the refused buffer. Exactly the invalid buffers are refused; the text
of the error tells the overlong ones from those that are cut, and the rest hold a bad truth value.
No valid buffer is a proper initial part of another. -/
theorem refusal_cases (format : Format) (buffer : Bytes) :
    (¬ format.Valid buffer ↔ ∃ error, format.decode buffer = .error error) ∧
    (format.Refuses buffer "decode_message: trailing bytes" ↔ format.Overlong buffer) ∧
    (format.Refuses buffer "WireReader: truncated buffer" ↔ format.Cut buffer) ∧
    (format.Refuses buffer "WireCodec: bad bool byte" ↔
      ¬ format.Valid buffer ∧ ¬ format.Overlong buffer ∧ ¬ format.Cut buffer) ∧
    ¬ (format.Overlong buffer ∧ format.Cut buffer) ∧
    (format.Refuses buffer "WireCodec: bad bool byte" → format.hasBool = true) ∧
    (format.Valid buffer → ¬ format.Overlong buffer ∧ ¬ format.Cut buffer) := by
  rw [refuses_iff .trailing rfl, refuses_iff .truncated rfl, refuses_iff .badBool rfl]
  refine ⟨not_valid_iff_decode, decode_trailing_iff, decode_truncated_iff, decode_badBool_iff, ?_,
    hasBool_of_decode_badBool, ?_⟩
  · rw [← decode_trailing_iff, ← decode_truncated_iff]
    intro hBoth
    obtain ⟨hTrailing, hTruncated⟩ := hBoth
    rw [hTrailing] at hTruncated
    simp at hTruncated
  · rw [← decode_trailing_iff, ← decode_truncated_iff, valid_iff_decode]
    intro hDecoded
    obtain ⟨message, h⟩ := hDecoded
    simp [h]

end Format

end Dataflow.Wire
