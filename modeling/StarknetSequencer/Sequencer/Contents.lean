import StarknetSequencer.Sequencer.AppHash
import StarknetSequencer.Wire.Decimal
import StarknetSequencer.Wire.Template

namespace Sequencer

open Wire Effect StarknetApp

variable {C S I : Type} (L : Starknet C S I)

def invokeHash (address function : String) (inputs : Option (List Int32)) : String :=
  "Invoked " ++ function ++ " with inputs " ++ debugInputs inputs ++
    " for contract in address " ++ address

def HashBinds (t : TransactionType) : Prop :=
  ∀ t' hash, t.computeAndHash L = .ok (.ok hash) → t'.computeAndHash L = .ok (.ok hash) → t' = t

structure Rejected (tx : Transaction) : Prop where
  integrity : tx.assertIntegrity L =
    .ok (.error "Corrupted transaction: Inconsistent transaction id")
  delivery : ∀ request, transactionCodec.deserialize request = some tx → ∀ app : StarknetApp S,
    (deliverTx L request).run app = .ok (rejected integrityFailed) app.counted

-- a call in the place of other contents, with the hash they passed the check with
def SubstitutesRejected (t : TransactionType) : Prop :=
  ∀ (tx : Transaction) address function inputs, tx.assertIntegrity L = .ok (.ok ()) →
    tx.transactionType = t ∨ .invoke address function inputs = t →
    .invoke address function inputs ≠ tx.transactionType →
    Rejected L { tx with transactionType := .invoke address function inputs }

-- what stands between the function and the address, for no list of inputs, is in either of them
def Locatable (address function : String) : Prop :=
  ∀ inputs,
    ¬ (" with inputs " ++ debugInputs inputs ++ " for contract in address ").toList <:+:
      (function ++ " ").toList ∧
    ¬ (" with inputs " ++ debugInputs inputs ++ " for contract in address ").toList <:+:
      (" " ++ address).toList

variable {L}

theorem debugInputs_toList (ns : List Int32) :
    (debugInputs (some ns)).toList = "Some([".toList ++
      ([',', ' '].intercalate (ns.map fun n => n.toInt.repr.toList) ++ "])".toList) := by
  simp only [debugInputs, String.toList_append, String.toList_intercalate, List.map_map,
    List.append_assoc]
  rfl

theorem debugInputs_char {inputs : Option (List Int32)} {c : Char}
    (h : c ∈ (debugInputs inputs).toList) : c.isDigit ∨ c ∈ "NoneSome([-, ])".toList := by
  have hnone : "None".toList <:+: "NoneSome([-, ])".toList := by decide
  have hsome : "Some([".toList <:+: "NoneSome([-, ])".toList := by decide
  have hcomma : [',', ' '] <:+: "NoneSome([-, ])".toList := by decide
  have hclose : "])".toList <:+: "NoneSome([-, ])".toList := by decide
  cases inputs with
  | none => exact .inr (hnone.subset h)
  | some ns =>
    rw [debugInputs_toList, List.mem_append, List.mem_append] at h
    rcases h with h | h | h
    · exact .inr (hsome.subset h)
    · rcases mem_intercalate h with h | ⟨x, hx, hc⟩
      · exact .inr (hcomma.subset h)
      · obtain ⟨n, -, rfl⟩ := List.mem_map.mp hx
        rcases intRepr_char hc with hd | rfl
        · exact .inl hd
        · exact .inr (by decide)
    · exact .inr (hclose.subset h)

theorem not_mem_debugInputs (inputs : Option (List Int32)) {c : Char} (hdigit : ¬ c.isDigit)
    (hmark : c ∉ "NoneSome([-, ])".toList) : c ∉ (debugInputs inputs).toList := by
  intro hmem
  rcases debugInputs_char hmem with hc | hc
  · exact hdigit hc
  · exact hmark hc

theorem debugInputs_inj {inputs inputs' : Option (List Int32)}
    (h : (debugInputs inputs).toList = (debugInputs inputs').toList) : inputs = inputs' := by
  have hapart (ns : List Int32) : (debugInputs none).toList ≠ (debugInputs (some ns)).toList := by
    rw [debugInputs_toList]
    intro heq
    exact absurd (List.cons.inj heq).1 (by decide)
  cases inputs with
  | none =>
    cases inputs' with
    | none => rfl
    | some ns => exact absurd h (hapart ns)
  | some ns =>
    cases inputs' with
    | none => exact absurd h.symm (hapart ns)
    | some ns' =>
      rw [debugInputs_toList, debugInputs_toList] at h
      have hjoin := List.append_cancel_right (List.append_cancel_left h)
      have hparts (ns : List Int32) :
          ∀ x ∈ ns.map fun n => n.toInt.repr.toList, x ≠ [] ∧ ',' ∉ x := by
        intro x hx
        obtain ⟨n, -, rfl⟩ := List.mem_map.mp hx
        refine ⟨intRepr_ne_nil _, fun hmem => ?_⟩
        rcases intRepr_char hmem with hd | hd
        · exact absurd hd (by decide)
        · exact absurd hd (by decide)
      have hmap := intercalate_inj (hparts ns)
        (fun x hx => ⟨(hparts ns' x hx).1, fun hmem => absurd hmem (hparts ns' x hx).2⟩) hjoin
      have hinj : Function.Injective fun n : Int32 => n.toInt.repr.toList := fun m n hmn =>
        Int32.toInt_inj.mp (intRepr_inj (String.toList_inj.mp hmn))
      rw [hinj.list_map hmap]

def hashTemplate : Template Char where
  blank := ' '
  lead := 'w'
  mark := 'f'
  first := "ith inputs ".toList
  second := "or contract in address".toList
  field d := ∃ inputs, (debugInputs inputs).toList = d
  lead_ne_blank := by decide
  mark_ne_blank := by decide
  lead_first := by decide
  lead_second := by decide
  lead_field := by
    rintro d ⟨inputs, rfl⟩
    exact not_mem_debugInputs inputs (by decide) (by decide)
  mark_field := by
    rintro d ⟨inputs, rfl⟩
    exact not_mem_debugInputs inputs (by decide) (by decide)

theorem locatable_iff {address function : String} :
    Locatable address function ↔ hashTemplate.Clear function.toList address.toList := by
  have hmarker (inputs : Option (List Int32)) :
      (" with inputs " ++ debugInputs inputs ++ " for contract in address ").toList =
        hashTemplate.marker (debugInputs inputs).toList := by
    simp only [String.toList_append, List.append_assoc]
    rfl
  have hfunction : (function ++ " ").toList = function.toList ++ [' '] := String.toList_append
  have haddress : (" " ++ address).toList = ' ' :: address.toList := String.toList_append
  simp only [Locatable, hmarker, hfunction, haddress]
  constructor
  · rintro h d ⟨inputs, rfl⟩
    exact h inputs
  · exact fun h inputs => h _ ⟨inputs, rfl⟩

theorem invokeHash_toList (address function : String) (inputs : Option (List Int32)) :
    (invokeHash address function inputs).toList = "Invoked ".toList ++
      hashTemplate.text function.toList (debugInputs inputs).toList address.toList := by
  simp only [invokeHash, String.toList_append, List.append_assoc]
  rfl

theorem computeAndHash_invoke (address function : String) (inputs : Option (List Int32)) :
    (TransactionType.invoke address function inputs).computeAndHash L =
      .ok (.ok (invokeHash address function inputs)) := rfl

theorem invokeHash_inj {address function address' function' : String}
    {inputs inputs' : Option (List Int32)} (hl : Locatable address function)
    (h : invokeHash address function inputs = invokeHash address' function' inputs') :
    TransactionType.invoke address' function' inputs' = .invoke address function inputs := by
  have htext := congrArg String.toList h
  rw [invokeHash_toList, invokeHash_toList] at htext
  obtain ⟨hf, hi, ha⟩ := Template.text_inj (T := hashTemplate) ⟨inputs, rfl⟩ ⟨inputs', rfl⟩
    (locatable_iff.mp hl) (List.append_cancel_left htext)
  rw [String.toList_inj.mp hf, debugInputs_inj hi, String.toList_inj.mp ha]

theorem exists_same_hash {address function : String} (inputs : Option (List Int32))
    (hl : ¬ Locatable address function) :
    ∃ address' function' inputs', function' ≠ function ∧
      invokeHash address' function' inputs' = invokeHash address function inputs := by
  rw [locatable_iff] at hl
  obtain ⟨f, d, a, ⟨inputs', rfl⟩, hne, htext⟩ :=
    Template.exists_text_of_not_clear (d := (debugInputs inputs).toList) hl
  refine ⟨String.ofList a, String.ofList f, inputs', ?_, String.toList_inj.mp ?_⟩
  · intro hf
    rw [← hf, String.toList_ofList] at hne
    exact hne rfl
  · rw [invokeHash_toList, invokeHash_toList]
    simp only [String.toList_ofList, htext]

theorem hash_ne_of_not_invoke {t : TransactionType} {hash address function : String}
    {inputs : Option (List Int32)} (ht : ∀ address function inputs, t ≠ .invoke address function inputs)
    (hc : t.computeAndHash L = .ok (.ok hash)) : invokeHash address function inputs ≠ hash := by
  cases t with
  | declare program =>
    obtain ⟨felt, c, -, rfl⟩ := computeAndHash_declare.mp hc
    exact invoke_hash_ne (computeAndHash_invoke (L := L) address function inputs) felt
  | deployAccount classHash salt inputs' =>
    obtain ⟨felt, -, rfl⟩ := computeAndHash_deployAccount.mp hc
    exact invoke_hash_ne (computeAndHash_invoke (L := L) address function inputs) felt
  | invoke address function inputs => exact absurd rfl (ht address function inputs)

theorem hashBinds_iff {address function : String} {inputs : Option (List Int32)} :
    HashBinds L (.invoke address function inputs) ↔ Locatable address function := by
  constructor
  · intro h
    by_contra hl
    obtain ⟨address', function', inputs', hne, hhash⟩ := exists_same_hash inputs hl
    have heq := h _ _ (computeAndHash_invoke address function inputs)
      (hhash ▸ computeAndHash_invoke address' function' inputs')
    injection heq with _ hf
    exact hne hf
  · intro hl t' hash hc hc'
    cases (computeAndHash_invoke address function inputs).symm.trans hc
    cases t' with
    | declare program => exact absurd rfl (hash_ne_of_not_invoke (by simp) hc')
    | deployAccount classHash salt inputs' => exact absurd rfl (hash_ne_of_not_invoke (by simp) hc')
    | invoke address' function' inputs' =>
      rw [computeAndHash_invoke] at hc'
      exact invokeHash_inj hl (Except.ok.inj (Except.ok.inj hc')).symm

theorem assertIntegrity_ok {tx : Transaction} : tx.assertIntegrity L = .ok (.ok ()) ↔
    tx.transactionType.computeAndHash L = .ok (.ok tx.transactionHash) := by
  rw [Transaction.assertIntegrity]
  cases tx.transactionType.computeAndHash L with
  | error p => simp [Except.map]
  | ok result =>
    cases result with
    | error e => simp [Except.map, Except.bind]
    | ok hash => simp [Except.map, Except.bind, eq_comm]

theorem rejected_of_ne {tx : Transaction} {address function : String}
    {inputs : Option (List Int32)} (h : invokeHash address function inputs ≠ tx.transactionHash) :
    Rejected L { tx with transactionType := .invoke address function inputs } where
  integrity := by
    simp only [Transaction.assertIntegrity, computeAndHash_invoke, Except.map, Except.bind,
      if_neg h.symm]
  delivery request hd app := by
    refine run_deliverTx_rejected ?_ app
    rw [checked, hd]
    simp only [computeAndHash_invoke, Except.map, if_neg h]

theorem substitutesRejected_iff {address function : String} {inputs : Option (List Int32)} :
    SubstitutesRejected L (.invoke address function inputs) ↔ Locatable address function := by
  constructor
  · intro h
    by_contra hl
    obtain ⟨address', function', inputs', hne, hhash⟩ := exists_same_hash inputs hl
    have hrejected := h ⟨.invoke address function inputs, invokeHash address function inputs, ""⟩
      address' function' inputs' (assertIntegrity_ok.mpr rfl) (.inl rfl) (by simp [hne])
    have hpasses : Transaction.assertIntegrity L ⟨.invoke address' function' inputs',
        invokeHash address function inputs, ""⟩ = .ok (.ok ()) :=
      assertIntegrity_ok.mpr (hhash ▸ computeAndHash_invoke address' function' inputs')
    cases hrejected.integrity.symm.trans hpasses
  · intro hl tx address' function' inputs' hpass hside hne
    refine rejected_of_ne fun hsame => ?_
    have hc := assertIntegrity_ok.mp hpass
    have hc' := computeAndHash_invoke (L := L) address' function' inputs'
    rw [hsame] at hc'
    have hbinds : HashBinds L (.invoke address function inputs) := hashBinds_iff.mpr hl
    rcases hside with ht | ht
    · rw [ht] at hc hne
      exact hne (hbinds _ _ hc hc')
    · rw [ht] at hc' hne
      exact hne (hbinds _ _ hc' hc).symm

theorem invoke_hash_binds_iff (address function : String) (inputs : Option (List Int32)) :
    (HashBinds L (.invoke address function inputs) ↔ Locatable address function) ∧
      (SubstitutesRejected L (.invoke address function inputs) ↔ Locatable address function) :=
  ⟨hashBinds_iff, substitutesRejected_iff⟩

namespace Reference

def shortCall : TransactionType :=
  .invoke "0x06 with inputs None for contract in address 0x07" "f" none

def longCall : TransactionType :=
  .invoke "0x07" "f with inputs None for contract in address 0x06" none

def sharedHash : String :=
  "Invoked f with inputs None for contract in address 0x06" ++
    " with inputs None for contract in address 0x07"

end Reference

-- two calls of different functions at different addresses have one hash
theorem different_calls_same_hash :
    Reference.longCall ≠ Reference.shortCall ∧
    Reference.shortCall.computeAndHash Reference.starknet = .ok (.ok Reference.sharedHash) ∧
    Reference.longCall.computeAndHash Reference.starknet = .ok (.ok Reference.sharedHash) ∧
    ¬ HashBinds Reference.starknet Reference.shortCall ∧
    ¬ SubstitutesRejected Reference.starknet Reference.shortCall := by
  have hne : Reference.longCall ≠ Reference.shortCall := by decide
  have hshort : Reference.shortCall.computeAndHash Reference.starknet =
      .ok (.ok Reference.sharedHash) := congrArg (fun text => Except.ok (Except.ok text)) (by decide)
  have hlong : Reference.longCall.computeAndHash Reference.starknet =
      .ok (.ok Reference.sharedHash) := congrArg (fun text => Except.ok (Except.ok text)) (by decide)
  refine ⟨hne, hshort, hlong, fun h => hne (h _ _ hshort hlong), fun h => ?_⟩
  have hrejected := h ⟨Reference.shortCall, Reference.sharedHash, "1"⟩ _ _ _
    (assertIntegrity_ok.mpr hshort) (.inl rfl) hne
  have hpasses : Transaction.assertIntegrity Reference.starknet
      ⟨Reference.longCall, Reference.sharedHash, "1"⟩ = .ok (.ok ()) := assertIntegrity_ok.mpr hlong
  cases hrejected.integrity.symm.trans hpasses

end Sequencer
