/-!
# UTF-8

* `decode`: the characters of a list of bytes, with a mark for each piece that is no character;
* `decode?`: the text, if there is no such piece;
* `decodeLossy`: the text with the replacement character for each such piece.
-/

namespace SchemaAlign.Text.Utf8

/-- The bytes that may follow a first byte, each as a range. A first byte that no character begins
    with has none of them. -/
def followers? (b : Nat) : Option (List (Nat × Nat)) :=
  let tail := (0x80, 0xBF)
  if b ≤ 0x7F then some []
  else if 0xC2 ≤ b ∧ b ≤ 0xDF then some [tail]
  else if b = 0xE0 then some [(0xA0, 0xBF), tail]
  else if b = 0xED then some [(0x80, 0x9F), tail]
  else if 0xE1 ≤ b ∧ b ≤ 0xEF then some [tail, tail]
  else if b = 0xF0 then some [(0x90, 0xBF), tail, tail]
  else if 0xF1 ≤ b ∧ b ≤ 0xF3 then some [tail, tail, tail]
  else if b = 0xF4 then some [(0x80, 0x8F), tail, tail]
  else none

/-- How many bytes at the front lie in the ranges, one by one. -/
def countFitting : List (Nat × Nat) → List UInt8 → Nat
  | (low, high) :: ranges, b :: bs =>
    if low ≤ b.toNat ∧ b.toNat ≤ high then countFitting ranges bs + 1 else 0
  | _, _ => 0

/-- The bits that a first byte with `n` followers gives to its character. -/
def leadBits (b n : Nat) : Nat :=
  if n = 0 then b else b % (1 <<< (6 - n))

/-- The character with the given first byte and followers. -/
def assemble (b : Nat) (followers : List UInt8) : Char :=
  Char.ofNat (followers.foldl (fun v f => v * 64 + f.toNat % 64) (leadBits b followers.length))

/-- What the bytes begin with: a character or a piece that is none, and how many bytes after the
    first one belong to it. A piece is as long as it could still become a character. -/
def first (b : UInt8) (bs : List UInt8) : Option Char × Nat :=
  match followers? b.toNat with
  | none => (none, 0)
  | some ranges =>
    let n := countFitting ranges bs
    (if n = ranges.length then some (assemble b.toNat (bs.take n)) else none, n)

/-- The characters of the bytes, with `none` for each piece that is no character. -/
def decode : List UInt8 → List (Option Char)
  | [] => []
  | b :: bs => (first b bs).1 :: decode (bs.drop (first b bs).2)
termination_by bs => bs.length
decreasing_by
  rw [List.length_drop, List.length_cons]
  omega

/-- The text that the bytes encode, if they encode one. -/
def decode? (bs : List UInt8) : Option String :=
  ((decode bs).mapM id).map String.ofList

/-- The text that the bytes encode, with the replacement character for each piece that encodes
    nothing. -/
def decodeLossy (bs : List UInt8) : String :=
  String.ofList ((decode bs).map (·.getD '\uFFFD'))

end SchemaAlign.Text.Utf8
