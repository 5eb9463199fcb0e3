import Mathlib.Tactic.Common

/-!
# SipHash-1-3 over a stream of bytes

The hasher of `std::collections::hash_map::DefaultHasher`: SipHash with one compression round for
each word and three finalization rounds, under two zero keys. A hasher takes its input in pieces;
whole words are compressed as they come in, and the up to seven bytes that are left wait in `tail`.

* `write_append`: it does not matter how the input is cut into pieces.
* `foldl_write_new`: many writes are one write of the concatenation.
-/

namespace SipHash

/-- The four words of the state. -/
structure State where
  v0 : UInt64
  v1 : UInt64
  v2 : UInt64
  v3 : UInt64
  deriving DecidableEq

def rotateLeft (x n : UInt64) : UInt64 := (x <<< n) ||| (x >>> (64 - n))

def State.round (s : State) : State :=
  let v0 := s.v0 + s.v1
  let v1 := rotateLeft s.v1 13 ^^^ v0
  let v0 := rotateLeft v0 32
  let v2 := s.v2 + s.v3
  let v3 := rotateLeft s.v3 16 ^^^ v2
  let v0 := v0 + v3
  let v3 := rotateLeft v3 21 ^^^ v0
  let v2 := v2 + v1
  let v1 := rotateLeft v1 17 ^^^ v2
  let v2 := rotateLeft v2 32
  ⟨v0, v1, v2, v3⟩

/-- One word of the input. -/
def State.compress (s : State) (word : UInt64) : State :=
  let s := { s with v3 := s.v3 ^^^ word }.round
  { s with v0 := s.v0 ^^^ word }

/-- Up to eight bytes, the least significant one first. -/
def ofLe (bytes : List UInt8) : UInt64 :=
  bytes.foldr (fun b word => word <<< 8 ||| b.toUInt64) 0

/-- The whole words of the input are compressed, and the rest is left. -/
def absorb (s : State) : List UInt8 → State × List UInt8
  | a :: b :: c :: d :: e :: f :: g :: h :: rest =>
    absorb (s.compress (ofLe [a, b, c, d, e, f, g, h])) rest
  | rest => (s, rest)

structure Hasher where
  state : State
  tail : List UInt8
  length : Nat
  deriving DecidableEq

namespace Hasher

/-- `DefaultHasher::new()`: both keys are zero. -/
def new : Hasher where
  state := ⟨0x736f6d6570736575, 0x646f72616e646f6d, 0x6c7967656e657261, 0x7465646279746573⟩
  tail := []
  length := 0

def write (self : Hasher) (bytes : List UInt8) : Hasher :=
  let (state, tail) := absorb self.state (self.tail ++ bytes)
  { state, tail, length := self.length + bytes.length }

def finish (self : Hasher) : UInt64 :=
  let last := (UInt64.ofNat self.length &&& 0xff) <<< 56 ||| ofLe self.tail
  let s := self.state.compress last
  let s := { s with v2 := s.v2 ^^^ 0xff }.round.round.round
  s.v0 ^^^ s.v1 ^^^ s.v2 ^^^ s.v3

end Hasher

theorem absorb_append (s : State) (xs ys : List UInt8) :
    absorb s (xs ++ ys) = absorb (absorb s xs).1 ((absorb s xs).2 ++ ys) := by
  induction s, xs using absorb.induct with
  | case1 s a b c d e f g h rest ih => exact ih
  | case2 s rest hshort =>
    rw [absorb.eq_2 s rest hshort]

namespace Hasher

/-- A hasher takes its input in pieces of any length. -/
theorem write_append (self : Hasher) (xs ys : List UInt8) :
    (self.write xs).write ys = self.write (xs ++ ys) := by
  simp only [write, ← List.append_assoc, absorb_append self.state (self.tail ++ xs) ys,
    List.length_append, Nat.add_assoc]

theorem foldl_write (self : Hasher) (xs : List UInt8) (pieces : List (List UInt8)) :
    pieces.foldl write (self.write xs) = self.write (xs ++ pieces.flatten) := by
  induction pieces generalizing xs with
  | nil => simp
  | cons piece pieces ih =>
    rw [List.foldl_cons, write_append, ih, List.flatten_cons, List.append_assoc]

/-- Many writes into a new hasher are one write. -/
theorem foldl_write_new (pieces : List (List UInt8)) :
    pieces.foldl write new = new.write pieces.flatten := by
  have hnil : new.write [] = new := rfl
  have hfold := foldl_write new [] pieces
  rwa [hnil, List.nil_append] at hfold

end Hasher

example : (Hasher.new.write [97, 98, 99, 100, 101, 102, 103, 104, 105, 106, 107, 108]).finish =
    9450612872170530241 := by
  decide +kernel

end SipHash
