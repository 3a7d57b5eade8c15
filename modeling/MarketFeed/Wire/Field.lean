import MarketFeed.Wire.FixedText
import MarketFeed.Binary64.Basic

/-!
# MarketFeed.Wire.Field

Payloads as rows of fields without padding, integers with their low byte first.

* `FieldKind` — what a field holds and how many bytes it takes.
* `Row` — one value for every field of a layout.
* `Row.bytes`, `readRow` — the payload of a row, and the row at the start of a payload. A payload
  that ends inside a field is refused with the position where that field ends.
-/

namespace MarketFeed
namespace Wire

inductive FieldKind where
  | word16
  | word32
  /-- A double-precision number by its bits. -/
  | double
  | text (width : Nat)
  deriving DecidableEq, Repr

def FieldKind.width : FieldKind → Nat
  | .word16 => 2
  | .word32 => 4
  | .double => 8
  | .text w => w

abbrev FieldKind.Content : FieldKind → Type
  | .word16 => UInt16
  | .word32 => UInt32
  | .double => Binary64
  | .text _ => String

/-- The lowest `width` bytes of a number, lowest first. -/
def littleEndian : Nat → Nat → List UInt8
  | 0, _ => []
  | width + 1, n => (n % 256).toUInt8 :: littleEndian width (n / 256)

def ofLittleEndian : List UInt8 → Nat
  | [] => 0
  | b :: rest => b.toNat + 256 * ofLittleEndian rest

def FieldKind.bytes : (k : FieldKind) → k.Content → List UInt8
  | .word16, n => littleEndian 2 n.toNat
  | .word32, n => littleEndian 4 n.toNat
  | .double, x => littleEndian 8 x.bits.toNat
  | .text w, s => fixedText w s

def FieldKind.ofBytes : (k : FieldKind) → List UInt8 → k.Content
  | .word16, bytes => UInt16.ofNat (ofLittleEndian bytes)
  | .word32, bytes => UInt32.ofNat (ofLittleEndian bytes)
  | .double, bytes => ⟨UInt64.ofNat (ofLittleEndian bytes)⟩
  | .text _, bytes => ofFixedText bytes

/-- The fields of a payload in order. -/
abbrev Layout := List FieldKind

def Layout.width (l : Layout) : Nat := l.foldr (fun k n => k.width + n) 0

abbrev Row : Layout → Type
  | [] => Unit
  | k :: rest => k.Content × Row rest

def Row.bytes : (l : Layout) → Row l → List UInt8
  | [], _ => []
  | k :: rest, (v, vs) => k.bytes v ++ Row.bytes rest vs

/-- Reads a row from a payload of which `position` bytes were read before. -/
def readRow (position : Nat) : (l : Layout) → List UInt8 → Except Nat (Row l)
  | [], _ => .ok ()
  | k :: rest, bytes =>
    if bytes.length < k.width then .error (position + k.width)
    else
      match readRow (position + k.width) rest (bytes.drop k.width) with
      | .ok vs => .ok (k.ofBytes (bytes.take k.width), vs)
      | .error e => .error e

theorem length_littleEndian (width n : Nat) : (littleEndian width n).length = width := by
  induction width generalizing n with
  | zero => rfl
  | succ w ih => simp [littleEndian, ih]

theorem ofLittleEndian_littleEndian (width n : Nat) :
    ofLittleEndian (littleEndian width n) = n % Nat.pow 256 width := by
  induction width generalizing n with
  | zero => simp [littleEndian, ofLittleEndian, Nat.mod_one]
  | succ w ih =>
    have h : (n % 256).toUInt8.toNat = n % 256 := by simp
    have hp : Nat.pow 256 (w + 1) = 256 * Nat.pow 256 w := Nat.mul_comm _ _
    rw [littleEndian, ofLittleEndian, ih, h, hp, Nat.mod_mul]

theorem ofLittleEndian_lt (bytes : List UInt8) :
    ofLittleEndian bytes < Nat.pow 256 bytes.length := by
  induction bytes with
  | nil => exact Nat.one_pos
  | cons b rest ih =>
    have hb : b.toNat < 256 := b.toNat_lt
    have hp : Nat.pow 256 (b :: rest).length = 256 * Nat.pow 256 rest.length := Nat.mul_comm _ _
    rw [ofLittleEndian, hp]
    omega

theorem littleEndian_ofLittleEndian (bytes : List UInt8) :
    littleEndian bytes.length (ofLittleEndian bytes) = bytes := by
  induction bytes with
  | nil => rfl
  | cons b rest ih =>
    have hb : b.toNat < 256 := b.toNat_lt
    have hlow : (b.toNat + 256 * ofLittleEndian rest) % 256 = b.toNat := by omega
    have hhigh : (b.toNat + 256 * ofLittleEndian rest) / 256 = ofLittleEndian rest := by omega
    rw [List.length_cons, ofLittleEndian, littleEndian, hlow, hhigh, ih]
    simp

theorem FieldKind.length_bytes (k : FieldKind) (v : k.Content) : (k.bytes v).length = k.width := by
  cases k <;> simp [FieldKind.bytes, FieldKind.width, length_littleEndian, length_fixedText]

theorem Row.length_bytes (l : Layout) (r : Row l) : (Row.bytes l r).length = l.width := by
  induction l with
  | nil => rfl
  | cons k rest ih =>
    obtain ⟨v, vs⟩ := r
    simp only [Row.bytes, List.length_append, FieldKind.length_bytes, ih]
    simp [Layout.width]

end Wire
end MarketFeed
