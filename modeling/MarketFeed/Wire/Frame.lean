import MarketFeed.Wire.Message

/-!
# MarketFeed.Wire.Frame

Frames: a size and a type of two bytes each, low byte first, then the payload. The size counts the
whole frame, these four bytes included.

* `Frame.bytes`, `Frame.next` — writing a frame, and taking the first one off a run of bytes.
* `Message.encode` — the frame of a message.
* `Message.decode` — the message of a frame; bytes after the known fields are passed over.
-/

namespace MarketFeed
namespace Wire

def headerWidth : Nat := 4

structure Frame where
  code : UInt16
  payload : List UInt8
  deriving DecidableEq, Repr

/-- What makes a run of bytes no frame, or a frame no message. -/
inductive Malformation where
  /-- The payload ends before the field that ends at `need`. -/
  | shortPayload (code : UInt16) (need given : Nat)
  /-- The size is less than that of a header. -/
  | shortFrame (size : Nat)
  /-- Anything else, in words. -/
  | other (text : String)
  deriving DecidableEq, Repr

def Malformation.message : Malformation → String
  | .shortPayload code need given =>
    s!"message type {code} payload too short: need {need} bytes, have {given}"
  | .shortFrame size => s!"frame size {size} smaller than header"
  | .other text => text

inductive DecodeError where
  | malformed (m : Malformation)
  | unexpected (code : UInt16)
  deriving DecidableEq, Repr

def Frame.size (f : Frame) : Nat := headerWidth + f.payload.length

def Frame.bytes (f : Frame) : List UInt8 :=
  littleEndian 2 f.size ++ littleEndian 2 f.code.toNat ++ f.payload

/-- The start of a run of bytes. -/
inductive Next where
  | frame (f : Frame) (rest : List UInt8)
  /-- A header whose size is too small. -/
  | undersized (size : Nat) (rest : List UInt8)
  /-- Not yet a whole frame. -/
  | incomplete
  deriving DecidableEq, Repr

def Frame.next (bytes : List UInt8) : Next :=
  match bytes with
  | s₀ :: s₁ :: c₀ :: c₁ :: rest =>
    let size := ofLittleEndian [s₀, s₁]
    if size < headerWidth then .undersized size rest
    else
      let width := size - headerWidth
      if rest.length < width then .incomplete
      else .frame ⟨UInt16.ofNat (ofLittleEndian [c₀, c₁]), rest.take width⟩ (rest.drop width)
  | _ => .incomplete

namespace Message

def frame (m : Message) : Frame := ⟨m.kind.code, Row.bytes m.kind.layout m.row⟩

def encode (m : Message) : List UInt8 := m.frame.bytes

def decode (f : Frame) : Except DecodeError Message :=
  match MessageKind.ofCode? f.code with
  | none => .error (.unexpected f.code)
  | some k =>
    match readRow 0 k.layout f.payload with
    | .ok r => .ok (ofRow k r)
    | .error need => .error (.malformed (.shortPayload f.code need f.payload.length))

end Message

theorem Next.length_rest_lt {bytes rest : List UInt8} {f : Frame}
    (h : Frame.next bytes = .frame f rest) : rest.length < bytes.length := by
  unfold Frame.next at h
  split at h
  · simp only at h
    split at h
    · cases h
    · split at h
      · cases h
      · injection h with _ h
        subst h
        simp only [List.length_drop, List.length_cons]
        omega
  · cases h

/-- How a run of bytes ends after its last whole frame. -/
inductive Ending where
  | undersized (size : Nat) (rest : List UInt8)
  | incomplete
  deriving DecidableEq, Repr

/-- All whole frames of a run of bytes, up to the first header that is none. -/
def frames (bytes : List UInt8) : List Frame × Ending :=
  match _ : Frame.next bytes with
  | .frame f rest =>
    let r := frames rest
    (f :: r.1, r.2)
  | .undersized size rest => ([], .undersized size rest)
  | .incomplete => ([], .incomplete)
termination_by bytes.length
decreasing_by exact Next.length_rest_lt (by assumption)

end Wire
end MarketFeed
