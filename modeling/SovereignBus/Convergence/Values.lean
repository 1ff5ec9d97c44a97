import SovereignBus.Lattice.Ports
import SovereignBus.Library.Lines

/-!
JavaScript values and buffers, as `seb/runtime/seb_convergence.mjs` uses them.

* `Value`: what a property of a JSON value can be, with `truthy` and `stored`.
* `toHex`, `fromHex`: buffers in hexadecimal, and `fromHex_toHex`.
* `lines`: the lines of a file that are not blank, and `exists_lines`, what is added to them
  behind an unfinished line.
-/

namespace SovereignBus

namespace Convergence

open Lines

/-- A string. -/
abbrev Text := List Char

/-! ### Numbers -/

def isZero (x : UInt64) : Bool := x == 0 || x == 0x8000000000000000

def isFinite (x : UInt64) : Bool := x &&& 0x7FFFFFFFFFFFFFFF < 0x7FF0000000000000

def isNaN (x : UInt64) : Bool := 0x7FF0000000000000 < x &&& 0x7FFFFFFFFFFFFFFF

/-- `x < 0`, for the bits of `x`. -/
def isNegative (x : UInt64) : Bool := 0x8000000000000000 < x && x ≤ 0xFFF0000000000000

/-- The bits of a number of JSON, which is never `NaN`. -/
abbrev Number := { x : UInt64 // isNaN x = false }

def zero : Number := ⟨0, rfl⟩

/-! ### Values -/

instance countableChar : Countable Char :=
  Function.Injective.countable (f := Char.toNat) fun _ _ h => Char.toNat_inj.mp h

/-- A property of a JSON value. An array or an object, which the module never looks into,
is a name. -/
inductive Value where
  | undefined
  | null
  | bool (b : Bool)
  | number (x : Number)
  | string (s : Text)
  | object (name : ℕ)
  deriving DecidableEq, Countable

/-- The test of `||`. -/
def Value.truthy : Value → Bool
  | .undefined => false
  | .null => false
  | .bool b => b
  | .number x => !isZero x.1
  | .string s => s != []
  | .object _ => true

/-- `v || w`. -/
def Value.or (v w : Value) : Value := if v.truthy then v else w

/-- The value that is read back from JSON. -/
def Value.stored : Value → Value
  | .number x => if isZero x.1 then .number zero else if isFinite x.1 then .number x else .null
  | v => v

/-! ### Buffers -/

/-- The first cells of a buffer. A cell behind its end is `undefined`, which the circuit
reads as 0. -/
def cells (n : ℕ) (b : List UInt8) : Fin n → UInt8 := fun i => b.getD i 0

/-- `writeBigUInt64LE`. -/
def writeUInt64LE (x : ℕ) : List UInt8 := (List.range 8).map fun i => UInt8.ofNat (x / 256 ^ i)

/-- `toString('hex')`. -/
def toHex (b : List UInt8) : Text :=
  b.flatMap fun x => [Nat.digitChar (x.toNat / 16), Nat.digitChar (x.toNat % 16)]

def hexValue (c : Char) : Option ℕ :=
  if '0' ≤ c ∧ c ≤ '9' then some (c.toNat - 48)
  else if 'a' ≤ c ∧ c ≤ 'f' then some (c.toNat - 87)
  else if 'A' ≤ c ∧ c ≤ 'F' then some (c.toNat - 55)
  else none

/-- `Buffer.from(s, 'hex')`, which stops at the first pair that is none of digits. -/
def fromHex : Text → List UInt8
  | a :: b :: s =>
      match hexValue a, hexValue b with
      | some x, some y => UInt8.ofNat (16 * x + y) :: fromHex s
      | _, _ => []
  | _ => []

@[simp] lemma length_writeUInt64LE (x : ℕ) : (writeUInt64LE x).length = 8 := by
  simp [writeUInt64LE]

lemma hexValue_digitChar : ∀ n < 16, hexValue (Nat.digitChar n) = some n := by decide

@[simp] lemma fromHex_toHex (b : List UInt8) : fromHex (toHex b) = b := by
  induction b with
  | nil => rfl
  | cons x b ih =>
      have hx := x.toNat_lt
      have hhigh := hexValue_digitChar (x.toNat / 16) (by omega)
      have hlow := hexValue_digitChar (x.toNat % 16) (by omega)
      have hvalue : 16 * (x.toNat / 16) + x.toNat % 16 = x.toNat := Nat.div_add_mod _ _
      rw [toHex, List.flatMap_cons, ← toHex, List.cons_append, List.cons_append,
        List.nil_append, fromHex, hhigh, hlow]
      simp only [ih, hvalue, UInt8.ofNat_toNat]

lemma toHex_injective : Function.Injective toHex := Function.LeftInverse.injective fromHex_toHex

/-! ### Files -/

/-- White space for `trim`. -/
def isSpace (c : Char) : Bool :=
  0x09 ≤ c.val && c.val ≤ 0x0d || c.val == 0x20 || c.val == 0xa0 || c.val == 0x1680
    || 0x2000 ≤ c.val && c.val ≤ 0x200a || c.val == 0x2028 || c.val == 0x2029
    || c.val == 0x202f || c.val == 0x205f || c.val == 0x3000 || c.val == 0xfeff

/-- White space for `JSON.parse`. -/
def jsonSpace (c : Char) : Bool := c == ' ' || c == '\t' || c == '\n' || c == '\r'

/-- The lines whose `trim` is not empty. -/
def lines (file : Text) : List Text := (file.splitOn '\n').filter fun l => !l.all isSpace

/-- What stands behind the last line feed. -/
def rest (file : Text) : Text := unfinished (· == '\n') file

lemma isSpace_of_jsonSpace {c : Char} (h : jsonSpace c = true) : isSpace c = true := by
  simp only [jsonSpace, Bool.or_eq_true, beq_iff_eq] at h
  rcases h with ((rfl | rfl) | rfl) | rfl <;> decide

lemma all_isSpace {u : Text} (h : u.all jsonSpace = true) : u.all isSpace = true :=
  List.all_eq_true.mpr fun c hc => isSpace_of_jsonSpace (List.all_eq_true.mp h c hc)

lemma lines_feed (a b : Text) : lines (a ++ '\n' :: b) = lines a ++ lines b := by
  rw [lines, List.splitOn_append_cons_self, List.filter_append]
  rfl

lemma lines_of_blank {u : Text} (hu : u.all isSpace = true) (hline : '\n' ∉ u) : lines u = [] := by
  rw [lines, List.splitOn_eq_singleton hline]
  simp [hu]

lemma lines_of_not_blank {u : Text} (hu : u.all isSpace = false) (hline : '\n' ∉ u) :
    lines u = [u] := by
  rw [lines, List.splitOn_eq_singleton hline]
  simp [hu]

@[simp] lemma lines_nil : lines [] = [] := lines_of_blank rfl (List.not_mem_nil)

lemma rest_line (file : Text) : '\n' ∉ rest file := fun h => by
  simpa using unfinished_not_sep _ h

/-- A file is its rest, or its rest stands behind a line feed. -/
lemma rest_cases (file : Text) : rest file = file ∨ ∃ b, file = b ++ '\n' :: rest file := by
  have hsplit : (file.rdropWhile fun c => !(c == '\n')) ++ rest file = file :=
    List.rdropWhile_append_rtakeWhile
  by_cases hnil : (file.rdropWhile fun c => !(c == '\n')) = []
  · rw [hnil, List.nil_append] at hsplit
    exact .inl hsplit
  · have hlast : (file.rdropWhile fun c => !(c == '\n')).getLast hnil = '\n' := by
      simpa using List.rdropWhile_last_not _ _ hnil
    have hconcat := List.dropLast_append_getLast hnil
    rw [hlast] at hconcat
    exact .inr ⟨_, by rw [List.append_cons, hconcat, hsplit]⟩

/-- The lines that are over, and those of the rest with what is appended. -/
lemma exists_lines (file : Text) : ∃ ls, ∀ s, lines (file ++ s) = ls ++ lines (rest file ++ s) := by
  rcases rest_cases file with hrest | ⟨b, hfile⟩
  · exact ⟨[], fun s => by rw [hrest, List.nil_append]⟩
  · refine ⟨lines b, fun s => ?_⟩
    conv_lhs => rw [hfile]
    rw [List.append_assoc, List.cons_append, lines_feed]

end Convergence

end SovereignBus
