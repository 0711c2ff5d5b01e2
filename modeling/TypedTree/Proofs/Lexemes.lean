import TypedTree.Ident
import TypedTree.Proofs.Outcome
import TypedTree.Text.Decimal
import Mathlib.Data.List.Basic
import Mathlib.Data.List.Induction

/-!
# Written names and numbers

The smallest pieces of written data. A checked reader of names accepts exactly the readable texts
and keeps the text as it is. A global identifier is cut at its first dot, so a text is accepted just
if it is that of a global identifier with two readable halves. Digits stand for a number just if
they are its numeral behind some zeros.

## Main definitions

* `Ident.Readable`, `GlobalId.Readable`: the names that can be written and read back.

## Main statements

* `Ident.read_eq_ok`, `GlobalId.read_eq_ok`: what the readers of names accept.
* `GlobalId.read_written`: the texts of global identifiers, with any two halves.
* `Text.Decimal.read?_eq_some`: which digits are read as a number.
-/

namespace TypedTree

variable {s : String}

/-- Whether a local name is one that readers accept. -/
def Ident.Readable (id : Ident) : Prop :=
  Name.Readable id.text

/-- Whether both halves of a global identifier are readable. -/
def GlobalId.Readable (id : GlobalId) : Prop :=
  Name.Readable id.space.text ∧ id.name.Readable

/-- No reserved character stands in a readable name. -/
theorem Name.Readable.ne_of_mem {text : String} (h : Name.Readable text) {c r : Char}
    (hr : Name.isReserved r = true) (hc : c ∈ text.toList) : c ≠ r := by
  rintro rfl
  simp [h.2 c hc] at hr

theorem Name.isReserved_iff {c : Char} : isReserved c = true ↔ c ∈ ['.', '[', ']'] := by
  simp [isReserved, or_assoc]

theorem Name.readable_iff {text : String} :
    Readable text ↔ text ≠ "" ∧ ∀ c ∈ ['.', '[', ']'], c ∉ text.toList := by
  have free : (∀ c ∈ text.toList, isReserved c = false) ↔
      ∀ c ∈ ['.', '[', ']'], c ∉ text.toList := by
    simp only [← Bool.not_eq_true, isReserved_iff]
    exact ⟨fun h c hc mem => h c mem hc, fun h c mem hc => h c hc mem⟩
  rw [Readable, free, Ne, String.toList_eq_nil_iff]

theorem Name.map_check_eq_ok {text : String} {α : Type} {a b : α} :
    (Name.check text).map (fun _ => a) = .ok b ↔ Readable text ∧ a = b := by
  rw [← check_eq_ok_iff]
  cases check text <;> simp [Except.map]

theorem Ident.read_eq_ok {id : Ident} : Ident.read s = .ok id ↔ id.Readable ∧ id.text = s := by
  rw [read, Name.map_check_eq_ok, Readable]
  constructor
  · rintro ⟨readable, rfl⟩
    exact ⟨readable, rfl⟩
  · rintro ⟨readable, rfl⟩
    exact ⟨readable, rfl⟩

theorem Namespace.read_eq_ok {space : Namespace} :
    Namespace.read s = .ok space ↔ Name.Readable space.text ∧ space.text = s := by
  rw [read, Name.map_check_eq_ok]
  constructor
  · rintro ⟨readable, rfl⟩
    exact ⟨readable, rfl⟩
  · rintro ⟨readable, rfl⟩
    exact ⟨readable, rfl⟩

namespace GlobalId

variable {id : GlobalId}

theorem toList_text : id.text.toList = id.space.text.toList ++ '.' :: id.name.text.toList := by
  simp [text]

/-- The first dot in the text of a readable identifier is the one between its halves. -/
theorem read_text (h : id.Readable) : GlobalId.read id.text = .ok id := by
  have before : ∀ c ∈ id.space.text.toList, (c != '.') = true := by
    intro c hc
    simpa using h.1.ne_of_mem (by decide) hc
  have rest : id.text.toList.dropWhile (· != '.') = '.' :: id.name.text.toList := by
    rw [toList_text, List.dropWhile_append_of_pos before]
    simp
  have front : id.text.toList.takeWhile (· != '.') = id.space.text.toList := by
    rw [toList_text, List.takeWhile_append_of_pos before]
    simp
  simp only [read, rest, front, Outcome.bind_eq_ok, String.ofList_toList]
  exact ⟨id.space, Namespace.read_eq_ok.2 ⟨h.1, rfl⟩, id.name, Ident.read_eq_ok.2 ⟨h.2, rfl⟩, rfl⟩

/-- What is accepted has readable halves and is the text of what it is read as. -/
theorem of_read (h : GlobalId.read s = .ok id) : id.Readable ∧ id.text = s := by
  rw [read] at h
  split at h
  · cases h
  · rename_i c name cut
    simp only [Outcome.bind_eq_ok] at h
    obtain ⟨space, hspace, name', hname, whole⟩ := h
    obtain rfl : ⟨space, name'⟩ = id := Except.ok.inj whole
    obtain ⟨front, hfront⟩ := Namespace.read_eq_ok.1 hspace
    obtain ⟨back, hback⟩ := Ident.read_eq_ok.1 hname
    have dot : c = '.' := by
      have := List.head?_dropWhile_not (· != '.') s.toList
      simpa [cut] using this
    refine ⟨⟨front, back⟩, String.toList_inj.1 ?_⟩
    subst dot
    rw [toList_text, hfront, hback, String.toList_ofList, String.toList_ofList, ← cut]
    exact List.takeWhile_append_dropWhile

/-- The reader of global identifiers accepts exactly the texts of readable ones. -/
theorem read_eq_ok : GlobalId.read s = .ok id ↔ id.Readable ∧ id.text = s := by
  constructor
  · exact of_read
  · rintro ⟨readable, rfl⟩
    exact read_text readable

/-- Of texts that are joined by a dot, those of a readable identifier are joined nowhere else. -/
theorem text_inj {id' : GlobalId} (h : id.Readable) : id.text = id'.text ↔ id = id' := by
  constructor
  · intro same
    have space : '.' ∉ id.space.text.toList := fun mem => h.1.ne_of_mem (by decide) mem rfl
    have name : '.' ∉ id.name.text.toList := fun mem => h.2.ne_of_mem (by decide) mem rfl
    rw [← String.toList_inj, toList_text, toList_text,
      List.append_cons_inj_of_notMem space name] at same
    obtain ⟨⟨_⟩, ⟨_⟩⟩ := id
    obtain ⟨⟨_⟩, ⟨_⟩⟩ := id'
    simpa [String.toList_inj] using same
  · rintro rfl
    rfl

/-- Readers accept just what is written. The text of any two halves is accepted just if neither half
is empty or holds one of the characters that separate the steps of a path, and is read as these
halves. And what is read from any text has that text. -/
theorem read_written :
    (∀ space name : String, ∀ id : GlobalId,
      GlobalId.read (text ⟨⟨space⟩, ⟨name⟩⟩) = .ok id ↔
        (∀ half ∈ [space, name], half ≠ "" ∧ ∀ c ∈ ['.', '[', ']'], c ∉ half.toList) ∧
          id = ⟨⟨space⟩, ⟨name⟩⟩) ∧
      ∀ (s : String) (id : GlobalId), GlobalId.read s = .ok id → id.text = s := by
  refine ⟨fun space name id => ?_, fun s id accepted => (read_eq_ok.1 accepted).2⟩
  have halves : (⟨⟨space⟩, ⟨name⟩⟩ : GlobalId).Readable ↔
      ∀ half ∈ [space, name], half ≠ "" ∧ ∀ c ∈ ['.', '[', ']'], c ∉ half.toList := by
    simp [Readable, Ident.Readable, Name.readable_iff]
  rw [read_eq_ok, ← halves]
  constructor
  · rintro ⟨readable, same⟩
    obtain rfl := (text_inj readable).1 same
    exact ⟨readable, rfl⟩
  · rintro ⟨readable, rfl⟩
    exact ⟨readable, rfl⟩

/-- A name that is written and read back. -/
theorem read_written_record :
    GlobalId.read "core.record" = .ok ⟨⟨"core"⟩, ⟨"record"⟩⟩ ∧
      (⟨⟨"core"⟩, ⟨"record"⟩⟩ : GlobalId).text = "core.record" := by
  have accepted : GlobalId.read "core.record" = .ok ⟨⟨"core"⟩, ⟨"record"⟩⟩ :=
    (read_written.1 "core" "record" _).2 ⟨by simp, rfl⟩
  exact ⟨accepted, read_written.2 _ _ accepted⟩

/-- With a dot in the second half the text is refused, and is not that of other halves. -/
example : GlobalId.read (text ⟨⟨"a"⟩, ⟨"b.c"⟩⟩) = .error (.reserved "b.c" '.') := by
  decide

end GlobalId

namespace Text.Decimal

variable {digits : List Char} {n limit : Nat}

theorem value_eq : value digits = Nat.ofDigitChars 10 digits 0 :=
  Nat.ofDigitChars_eq_foldl.symm

/-- Zeros in front of a numeral do not change the number. -/
theorem value_padded (zeros : Nat) : value (List.replicate zeros '0' ++ Nat.toDigits 10 n) = n := by
  simp [value_eq, Nat.ofDigitChars_append, Nat.ofDigitChars_replicate_zero]

theorem value_concat (c : Char) :
    value (digits ++ [c]) = 10 * value digits + (c.toNat - '0'.toNat) := by
  simp [value]

/-- A digit is the numeral of what it stands for. -/
theorem toDigits_of_isDigit {c : Char} (h : c.isDigit = true) :
    c.toNat - '0'.toNat < 10 ∧ Nat.toDigits 10 (c.toNat - '0'.toNat) = [c] := by
  have bounds : '0'.toNat ≤ c.toNat ∧ c.toNat ≤ '9'.toNat := by
    simpa [Char.isDigit, UInt32.le_iff_toNat_le] using h
  have zero : '0'.toNat = 48 := rfl
  have nine : '9'.toNat = 57 := rfl
  have small : c.toNat - '0'.toNat < 10 := by omega
  have same : (Nat.digitChar (c.toNat - '0'.toNat)).toNat = c.toNat := by
    rw [Nat.toNat_digitChar_of_lt_ten small]
    omega
  exact ⟨small, by rw [Nat.toDigits_of_lt_base small, Char.toNat_inj.1 same]⟩

/-- Digits are a numeral behind some zeros. -/
theorem exists_padded (h : digits ≠ []) (each : ∀ c ∈ digits, c.isDigit = true) :
    ∃ zeros, digits = List.replicate zeros '0' ++ Nat.toDigits 10 (value digits) := by
  induction digits using List.reverseRecOn with
  | nil => exact absurd rfl h
  | append_singleton front c ih =>
    obtain ⟨small, last⟩ := toDigits_of_isDigit (each c (by simp))
    rw [value_concat]
    by_cases hfront : front = []
    · subst hfront
      exact ⟨0, by simpa [value] using last.symm⟩
    · obtain ⟨zeros, split⟩ := ih hfront fun c hc => each c (by simp [hc])
      by_cases hzero : value front = 0
      · rw [hzero, Nat.toDigits_zero, ← List.replicate_succ'] at split
        exact ⟨zeros + 1, by rw [hzero, Nat.mul_zero, Nat.zero_add, last, ← split]⟩
      · refine ⟨zeros, ?_⟩
        rw [← Nat.toDigits_append_toDigits (by omega) (by omega) small, last, ← List.append_assoc,
          ← split]

/-- A numeral behind some zeros is made of digits. -/
theorem isDigit_padded (zeros : Nat) :
    ∀ c ∈ List.replicate zeros '0' ++ Nat.toDigits 10 n, c.isDigit = true := by
  intro c hc
  rcases List.mem_append.1 hc with hc | hc
  · obtain ⟨-, rfl⟩ := List.mem_replicate.1 hc
    decide
  · exact Nat.isDigit_of_mem_toDigits (by omega) (by omega) hc

/-- Digits are read as a number below the limit just if they are its numeral behind some zeros. -/
theorem read?_eq_some :
    read? limit digits = some n ↔
      n < limit ∧ ∃ zeros, digits = List.replicate zeros '0' ++ Nat.toDigits 10 n := by
  constructor
  · intro h
    rw [read?] at h
    split at h
    · rename_i hall
      obtain rfl := Option.some.inj h
      exact ⟨hall.2.2, exists_padded hall.1 (List.all_eq_true.1 hall.2.1)⟩
    · cases h
  · rintro ⟨small, zeros, rfl⟩
    have each := List.all_eq_true.2 (isDigit_padded (n := n) zeros)
    rw [read?, if_pos ⟨by simp [Nat.toDigits_ne_nil], each, by rwa [value_padded]⟩, value_padded]

end Text.Decimal

end TypedTree
