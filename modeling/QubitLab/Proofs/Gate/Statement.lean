import QubitLab.Gate.Qasm
import QubitLab.Proofs.Gate.Fits
import QubitLab.Proofs.Json.Stored
import QubitLab.Proofs.Text.Separated

/-!
# Statements of gates

The statement of a gate is its name, the angles in parentheses if there are any, and the
qubits. The name of a custom gate may be anything, so nothing can be read off such a
statement. The mnemonics of the built-in kinds are made of letters and digits, so they end
where the parenthesis or the blank before the qubits is. From there on the kind is known, and
with it how many angles and qubits there are.

Angles are the one thing whose text is not fixed here. All that is asked of it is `Legible`:
it has no mark of the statement in it, and it is another one for another number.

## Main definitions

* `Gate.operands`: What stands behind the name.
* `Gate.Legible`: Scalars that can be told apart by their texts.
* `Gate.Standard`: The gate is what the constructor of the built-in kinds makes.

## Theorems

* `qasm_eq`, `head?_operands`: The name and the end of it.
* `operands_inj`: The angles and qubits of a statement.
* `qasm_inj`: The gate of a statement.
* `notMem_qasm`: A statement is on one line.
-/

namespace QubitLab

/-- A mnemonic is made of letters and digits. -/
theorem GateKind.isAlphanum_name (k : GateKind) : ∀ c ∈ k.name.toList, c.isAlphanum = true := by
  rw [← List.all_eq_true]
  cases k <;> decide

/-- The kinds have different mnemonics, since the names in stored data are made from them and
    are read back. -/
theorem GateKind.name_inj {k k' : GateKind} (h : k.name = k'.name) : k = k' := by
  have hstored : k.toJson = k'.toJson := by rw [toJson, toJson, storedName, h, ← storedName]
  have hread := (Json.recovers_kind k).read
  rw [hstored, (Json.recovers_kind k').read] at hread
  exact (Option.some.inj hread).symm

namespace Gate

variable {R : Type} [RealText R]

section Operands

/-- What stands behind the name in the statement of a gate. -/
def operands (g : Gate R) : String :=
  let qubits := " ".intercalate (g.qubits.map qubitText) ++ ";"
  if g.params.isEmpty then " " ++ qubits
  else "(" ++ (",".intercalate (g.params.map RealText.plain) ++ (")" ++ (" " ++ qubits)))

/-- A statement is the name and what stands behind it. -/
theorem qasm_eq (g : Gate R) : g.qasm = g.name ++ g.operands := by
  unfold qasm operands
  cases g.params.isEmpty with
  | true => simp only [if_true, String.append_assoc]
  | false =>
      have hclose : ") " = ")" ++ " " := rfl
      simp only [Bool.false_eq_true, if_false, hclose, String.append_assoc]

/-- A blank or a parenthesis stands behind the name. -/
theorem head?_operands (g : Gate R) :
    g.operands.toList.head? = some ' ' ∨ g.operands.toList.head? = some '(' := by
  unfold operands
  cases g.params.isEmpty with
  | true => exact Or.inl (by simp)
  | false => exact Or.inr (by simp)

theorem not_isAlphanum_head?_operands (g : Gate R) :
    ∀ c ∈ g.operands.toList.head?, ¬ c.isAlphanum = true := by
  intro c hc
  rcases head?_operands g with h | h
  · obtain rfl : ' ' = c := Option.some.inj (h.symm.trans hc)
    decide
  · obtain rfl : '(' = c := Option.some.inj (h.symm.trans hc)
    decide

/-- The text of a qubit tells its number. -/
theorem qubitText_inj {p q : Nat} (h : qubitText p = qubitText q) : p = q := by
  simp only [qubitText, String.append_left_inj, String.append_right_inj] at h
  exact Text.toString_inj h

theorem notMem_qubitText {c : Char} (hc : c.isDigit = false) (hmark : c ∉ ['q', '[', ']'])
    (q : Nat) : c ∉ (qubitText q).toList := by
  have hnumber := Text.notMem_toString hc q
  simp_all [qubitText, String.toList_append]

/-- The texts of qubits, with blanks between them, tell the qubits. -/
theorem qubits_inj {us vs : List Nat} (hnil : us = [] ↔ vs = [])
    (h : " ".intercalate (us.map qubitText) = " ".intercalate (vs.map qubitText)) : us = vs := by
  have hblank : ∀ l : List Nat, ∀ s ∈ l.map qubitText, ' ' ∉ s.toList := by
    intro l s hs
    rcases List.mem_map.mp hs with ⟨q, -, rfl⟩
    exact notMem_qubitText rfl (by decide) q
  have htexts : us.map qubitText = vs.map qubitText :=
    Text.intercalate_inj rfl (hblank us) (hblank vs)
      (by simpa only [List.map_eq_nil_iff] using hnil) h
  exact (List.map_inj_right fun p q => qubitText_inj).mp htexts

variable [Scalar R]

omit [RealText R] [Scalar R] in
/-- True of the characters that a number is written with. -/
def isNumeral (c : Char) : Bool := c.isDigit || c == '.' || c == '-'

/-- The finite ones among the scalars are written with digits, points and minus signs, and no
    two of them alike. -/
def Legible (xs : List R) : Prop :=
  (∀ x ∈ xs, Scalar.isFinite x = true → (RealText.plain x).toList.all isNumeral = true) ∧
  ∀ x ∈ xs, ∀ y ∈ xs, Scalar.isFinite x = true → Scalar.isFinite y = true →
    RealText.plain x = RealText.plain y → x = y

instance [DecidableEq R] (xs : List R) : Decidable (Legible xs) :=
  inferInstanceAs (Decidable (_ ∧ _))

/-- A scalar that is finite and among the given ones. -/
def FiniteIn (xs : List R) (x : R) : Prop := x ∈ xs ∧ Scalar.isFinite x = true

variable {xs us vs : List R}

/-- The text of an angle has nothing in it but the characters of a number. -/
theorem Legible.notMem_plain (hxs : Legible xs) {x : R} (hx : FiniteIn xs x) {c : Char}
    (hc : isNumeral c = false) : c ∉ (RealText.plain x).toList := fun h =>
  Bool.false_ne_true (hc.symm.trans (List.all_eq_true.mp (hxs.1 x hx.1 hx.2) c h))

theorem Legible.notMem_angles (hxs : Legible xs) (hus : ∀ x ∈ us, FiniteIn xs x) {c : Char}
    (hc : isNumeral c = false) (hcomma : c ≠ ',') :
    c ∉ (",".intercalate (us.map RealText.plain)).toList := by
  intro h
  rcases Text.mem_intercalate h with h | ⟨s, hs, h⟩
  · exact hcomma (List.mem_singleton.mp h)
  · rcases List.mem_map.mp hs with ⟨x, hx, rfl⟩
    exact hxs.notMem_plain (hus x hx) hc h

/-- The texts of angles, with commas between them, tell the angles. -/
theorem Legible.angles_inj (hxs : Legible xs) (hus : ∀ x ∈ us, FiniteIn xs x)
    (hvs : ∀ x ∈ vs, FiniteIn xs x) (hnil : us = [] ↔ vs = [])
    (h : ",".intercalate (us.map RealText.plain) = ",".intercalate (vs.map RealText.plain)) :
    us = vs := by
  have hcomma : ∀ l : List R, (∀ x ∈ l, FiniteIn xs x) → ∀ s ∈ l.map RealText.plain,
      ',' ∉ s.toList := by
    intro l hl s hs
    rcases List.mem_map.mp hs with ⟨x, hx, rfl⟩
    exact hxs.notMem_plain (hl x hx) rfl
  have htexts : us.map RealText.plain = vs.map RealText.plain :=
    Text.intercalate_inj rfl (hcomma us hus) (hcomma vs hvs)
      (by simpa only [List.map_eq_nil_iff] using hnil) h
  exact Text.eq_of_map_eq (fun x y hx hy => hxs.2 x hx.1 y hy.1 hx.2 hy.2) hus hvs htexts

/-- The angles and qubits of a statement, once it is known whether there are any. -/
theorem operands_inj (hxs : Legible xs) {g h : Gate R} (hg : ∀ x ∈ g.params, FiniteIn xs x)
    (hh : ∀ x ∈ h.params, FiniteIn xs x) (hparams : g.params = [] ↔ h.params = [])
    (hqubits : g.qubits = [] ↔ h.qubits = []) (heq : g.operands = h.operands) :
    g.params = h.params ∧ g.qubits = h.qubits := by
  unfold operands at heq
  by_cases hnil : g.params = []
  · rw [hnil, hparams.mp hnil] at heq ⊢
    simp only [List.isEmpty_nil, if_true, String.append_left_inj, String.append_right_inj] at heq
    exact ⟨rfl, qubits_inj hqubits heq⟩
  · have hnil' : h.params ≠ [] := fun hn => hnil (hparams.mpr hn)
    simp only [List.isEmpty_iff, hnil, hnil', if_false, String.append_right_inj] at heq
    -- The angles end at the closing parenthesis.
    rcases Text.separated_inj (c := ')') rfl (hxs.notMem_angles hg rfl (by decide))
      (hxs.notMem_angles hh rfl (by decide)) heq with ⟨hangles, hrest⟩
    simp only [String.append_left_inj, String.append_right_inj] at hrest
    exact ⟨hxs.angles_inj hg hh hparams hangles, qubits_inj hqubits hrest⟩

omit [Scalar R] in
theorem notMem_qubits (qs : List Nat) :
    '\n' ∉ (" ".intercalate (qs.map qubitText)).toList := by
  intro h
  rcases Text.mem_intercalate h with h | ⟨s, hs, h⟩
  · exact absurd h (by decide)
  · rcases List.mem_map.mp hs with ⟨q, -, rfl⟩
    exact notMem_qubitText rfl (by decide) q h

theorem Legible.notMem_operands (hxs : Legible xs) {g : Gate R}
    (hg : ∀ x ∈ g.params, FiniteIn xs x) : '\n' ∉ g.operands.toList := by
  have hqubits := notMem_qubits g.qubits
  have hangles := hxs.notMem_angles hg (c := '\n') rfl (by decide)
  unfold operands
  cases g.params.isEmpty with
  | true =>
      simp only [if_true, String.toList_append, List.mem_append, hqubits, false_or]
      decide
  | false =>
      simp only [Bool.false_eq_true, if_false, String.toList_append, List.mem_append, hqubits,
        hangles, false_or]
      decide

end Operands

section Standard

variable [Scalar R]

omit [RealText R] in
/-- The gate is what the constructor of the built-in kinds makes of its own fields. -/
def Standard (g : Gate R) : Prop := builtin g.kind g.qubits g.params = .ok g

omit [RealText R] in
theorem standard_of_builtin {kind : GateKind} {qubits : List Nat} {params : List R} {g : Gate R}
    (h : builtin kind qubits params = .ok g) : g.Standard := by
  obtain ⟨-, -, -, rfl⟩ := (builtin_eq_ok _ _ _ _).mp h
  exact h

variable {g h : Gate R}

omit [RealText R] in
theorem Standard.payload (hg : g.Standard) : g.payload = none :=
  congrArg Gate.payload ((builtin_eq_ok _ _ _ _).mp hg).2.2.2

omit [RealText R] in
theorem Standard.name (hg : g.Standard) : g.name = g.kind.name := by
  rw [Gate.name, hg.payload]

omit [RealText R] in
theorem Standard.arity (hg : g.Standard) : g.kind.arity? = some g.qubits.length :=
  ((builtin_eq_ok _ _ _ _).mp hg).1

omit [RealText R] in
/-- A standard gate has the angles that its kind asks for, and they are finite. -/
theorem Standard.params (hg : g.Standard) :
    g.params.length = g.kind.paramCount ∧ ∀ x ∈ g.params, Scalar.isFinite x = true :=
  (checkParams_eq_ok _ _).mp ((builtin_eq_ok _ _ _ _).mp hg).2.1

/-- The mnemonic is the first word of a statement. -/
theorem Standard.first_word (hg : g.Standard) {word rest : String}
    (hword : ∀ c ∈ word.toList, c.isAlphanum = true)
    (hrest : ∀ c ∈ rest.toList.head?, ¬ c.isAlphanum = true) (heq : g.qasm = word ++ rest) :
    g.kind.name = word ∧ g.operands = rest := by
  rw [qasm_eq, hg.name] at heq
  exact Text.append_inj g.kind.isAlphanum_name hword (not_isAlphanum_head?_operands g) hrest heq

variable {xs : List R}

/-- A statement says which gate it stands for. -/
theorem qasm_inj (hxs : Legible xs) (hg : g.Standard) (hh : h.Standard)
    (hgxs : ∀ x ∈ g.params, x ∈ xs) (hhxs : ∀ x ∈ h.params, x ∈ xs) (heq : g.qasm = h.qasm) :
    g = h := by
  rw [qasm_eq h, hh.name] at heq
  rcases hg.first_word h.kind.isAlphanum_name (not_isAlphanum_head?_operands h) heq with
    ⟨hname, hoperands⟩
  have hkind := GateKind.name_inj hname
  -- The kind says how many angles and qubits there are.
  have hparams : g.params.length = h.params.length := by rw [hg.params.1, hh.params.1, hkind]
  have hqubits : g.qubits.length = h.qubits.length :=
    Option.some.inj (by rw [← hg.arity, ← hh.arity, hkind])
  have hfields := operands_inj hxs (fun x hx => ⟨hgxs x hx, hg.params.2 x hx⟩)
    (fun x hx => ⟨hhxs x hx, hh.params.2 x hx⟩)
    (by rw [← List.length_eq_zero_iff, hparams, List.length_eq_zero_iff])
    (by rw [← List.length_eq_zero_iff, hqubits, List.length_eq_zero_iff]) hoperands
  have hpayload := hg.payload.trans hh.payload.symm
  rcases g with ⟨kind, qubits, params, payload⟩
  rcases h with ⟨kind', qubits', params', payload'⟩
  obtain rfl : kind = kind' := hkind
  obtain ⟨rfl, rfl⟩ : params = params' ∧ qubits = qubits' := hfields
  obtain rfl : payload = payload' := hpayload
  rfl

/-- A statement is on one line. -/
theorem notMem_qasm (hxs : Legible xs) (hg : g.Standard) (hgxs : ∀ x ∈ g.params, x ∈ xs) :
    '\n' ∉ g.qasm.toList := by
  rw [qasm_eq, hg.name, String.toList_append, List.mem_append, not_or]
  refine ⟨fun h => ?_, hxs.notMem_operands fun x hx => ⟨hgxs x hx, hg.params.2 x hx⟩⟩
  exact absurd (g.kind.isAlphanum_name _ h) (by decide)

end Standard

end Gate

end QubitLab
