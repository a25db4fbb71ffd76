/-! # Code points

A text of a model file is a row of code points, among which there may be halves of surrogate pairs;
such a half is no character. The text is held by a `String`: a half by its stand-in, the code point
that lies `0x90000` above it, and a character that could be taken for a stand-in or for the mark by
the mark and itself. `held` are the characters that hold a code point, `points` the code points that
characters hold; `points_flatMap_held` says that no text is lost or mistaken for another.

`Text.hold` holds a plain text, which has no halves. `Text.release` gives the plain text back. -/

namespace ProductLine
namespace Text

/-- Whether a code point is the first half of a surrogate pair. -/
def isHighHalf (n : Nat) : Bool := 0xD800 ≤ n && n ≤ 0xDBFF

/-- Whether a code point is the second half of a surrogate pair. -/
def isLowHalf (n : Nat) : Bool := 0xDC00 ≤ n && n ≤ 0xDFFF

/-- Whether a code point is half a surrogate pair. -/
def isHalf (n : Nat) : Bool := 0xD800 ≤ n && n ≤ 0xDFFF

/-- The code point that a surrogate pair makes. -/
def ofHalves (high low : Nat) : Nat := 0x10000 + (high - 0xD800) * 0x400 + (low - 0xDC00)

/-- The code point before the stand-ins, which marks a character that stands for itself. -/
def markPoint : Nat := 0x9D7FF

def mark : Char := Char.ofNat markPoint

def isReserved (n : Nat) : Bool := markPoint ≤ n && n ≤ 0x9DFFF

/-- The characters that hold a code point. -/
def held (n : Nat) : List Char :=
  if isHalf n then [Char.ofNat (0x90000 + n)]
  else if isReserved n then [mark, Char.ofNat n]
  else [Char.ofNat n]

/-- The code point that a character without a mark holds. -/
def point (c : Char) : Nat :=
  if isReserved c.toNat && c ≠ mark then c.toNat - 0x90000 else c.toNat

/-- The code points that characters hold. -/
def points : List Char → List Nat
  | [] => []
  | [c] => [point c]
  | c :: d :: rest => if c = mark then d.toNat :: points rest else point c :: points (d :: rest)

/-- A plain text as it is held. -/
def hold (s : String) : String := String.ofList (s.toList.flatMap fun c => held c.toNat)

/-- The plain text that a text is; a half of a surrogate pair becomes the replacement character. -/
def release (s : String) : String :=
  String.ofList ((points s.toList).map fun n => Char.ofNat (if isHalf n then 0xFFFD else n))

theorem toNat_ofNat {n : Nat} (h : n.isValidChar) : (Char.ofNat n).toNat = n := by
  rw [Char.ofNat, dif_pos h]
  rfl

theorem points_cons {c : Char} (h : c ≠ mark) (cs : List Char) :
    points (c :: cs) = point c :: points cs := by
  cases cs with
  | nil => rfl
  | cons d rest => rw [points, if_neg h]

theorem ofNat_ne_mark {n : Nat} (valid : n.isValidChar) (h : n ≠ markPoint) :
    Char.ofNat n ≠ mark := by
  intro e
  have := congrArg Char.toNat e
  rw [toNat_ofNat valid, mark, toNat_ofNat (by decide)] at this
  exact h this

/-- What holds a code point is read as that code point, whatever follows. -/
theorem points_held_append {n : Nat} (h : n ≤ 0x10FFFF) (cs : List Char) :
    points (held n ++ cs) = n :: points cs := by
  unfold held
  split
  · next half =>
    rw [isHalf, Bool.and_eq_true, decide_eq_true_eq, decide_eq_true_eq] at half
    have valid : (0x90000 + n).isValidChar := .inr ⟨by omega, by omega⟩
    have other : Char.ofNat (0x90000 + n) ≠ mark := ofNat_ne_mark valid (by unfold markPoint; omega)
    have reserved : isReserved (0x90000 + n) = true := by
      rw [isReserved, Bool.and_eq_true, decide_eq_true_eq, decide_eq_true_eq, markPoint]
      omega
    rw [List.singleton_append, points_cons other, point, toNat_ofNat valid, reserved]
    simp [other]
  · next whole =>
    have whole : n < 0xD800 ∨ 0xDFFF < n := by
      rw [isHalf, Bool.and_eq_true, decide_eq_true_eq, decide_eq_true_eq] at whole
      omega
    have valid : n.isValidChar := whole.imp id fun low => ⟨low, by omega⟩
    split
    · rw [List.cons_append, List.singleton_append, points, if_pos rfl, toNat_ofNat valid]
    · next free =>
      have other : Char.ofNat n ≠ mark :=
        ofNat_ne_mark valid fun e => free (by rw [e]; decide)
      rw [List.singleton_append, points_cons other, point, toNat_ofNat valid,
        Bool.eq_false_iff.mpr free]
      simp

/-- The code points of a text can be told from the characters that hold it. -/
theorem points_flatMap_held {ns : List Nat} (h : ∀ n ∈ ns, n ≤ 0x10FFFF) :
    points (ns.flatMap held) = ns := by
  induction ns with
  | nil => rfl
  | cons n ns ih =>
    rw [List.flatMap_cons, points_held_append (h n List.mem_cons_self),
      ih fun k hk => h k (List.mem_cons_of_mem n hk)]

end Text
end ProductLine
