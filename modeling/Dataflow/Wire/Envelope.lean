import Dataflow.Wire.Codec

/-!
The wire form of messages: sequence number, source, time, then the records. A buffer must hold one
message and nothing behind it.
-/

namespace Dataflow.Wire

inductive Container where
  | vec (item : Ty)
  /-- A text, whose records are its characters. -/
  | text
  deriving DecidableEq

namespace Container

def item : Container → Ty
  | vec item => item
  | text => .scalar .char

def encode : (c : Container) → List c.item.Val → Bytes
  | vec item, records => Wire.encode (.vec item) records
  | text, records => sizedBytes (records.map Int8.toUInt8)

def decode : (c : Container) → Reader (List c.item.Val)
  | vec item => Wire.decode (.vec item)
  | text => Reader.sized.andThen fun bytes => Reader.succeed (bytes.map UInt8.toInt8)

end Container

/-- What messages of one channel are made of. -/
structure Format where
  time : Ty
  data : Container
  deriving DecidableEq

namespace Format

abbrev Message (format : Format) : Type := Dataflow.Message format.time.Val format.data.item.Val

def encode (format : Format) (message : format.Message) : Bytes :=
  scalarBytes .u64 message.seq ++ scalarBytes .u32 message.source
    ++ Wire.encode format.time message.time ++ format.data.encode message.data

def reader (format : Format) : Reader format.Message :=
  (Reader.scalar .u64).andThen fun seq =>
  (Reader.scalar .u32).andThen fun source =>
  (Wire.decode format.time).andThen fun time =>
  format.data.decode.andThen fun data =>
  Reader.succeed { time, data, seq, source }

def decode (format : Format) (buffer : Bytes) : Except ReadError format.Message :=
  match format.reader buffer with
  | (.ok message, []) => .ok message
  | (.ok _, _ :: _) => .error .trailing
  | (.error error, _) => .error error

end Format

end Dataflow.Wire
