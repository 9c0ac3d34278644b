import StarknetSequencer.Sequencer.Starknet

namespace Sequencer

open Effect Registry

def Present {V : Type} (entry : Except String V) : Prop := ∃ v, entry = .ok v

def Taken (entry : Except String ClassHash) : Prop := ∃ h, entry = .ok h ∧ h ≠ uninitialized

instance : DecidablePred Taken
  | .ok h => decidable_of_iff (h ≠ uninitialized) (by simp [Taken])
  | .error _ => .isFalse (by simp [Taken])

theorem Taken.present {entry : Except String ClassHash} (h : Taken entry) : Present entry :=
  h.imp fun _ h => h.1

structure Ledger (C : Type) where
  classes : ClassHash → Except String C
  contracts : Felt252 → Except String ClassHash

namespace Ledger

variable {C : Type}

def declare (l : Ledger C) (hash : ClassHash) (contractClass : C) : Ledger C where
  classes := Function.update l.classes hash (.ok contractClass)
  contracts := l.contracts

-- an address bound to the zero hash is written but not taken: the next deployment rebinds it
def deploy (l : Ledger C) (address : Felt252) (hash : ClassHash) : Ledger C :=
  if address = 0 then l else { l with contracts := claim Taken l.contracts address (.ok hash) }

structure Extends (l m : Ledger C) : Prop where
  classes : Covers Present l.classes m.classes
  bindings : Covers Present l.contracts m.contracts
  contracts : Within Taken l.contracts m.contracts

theorem Extends.refl (l : Ledger C) : Extends l l :=
  ⟨Covers.refl _, Covers.refl _, Within.refl _⟩

theorem Extends.trans {l m n : Ledger C} (h₁ : Extends l m) (h₂ : Extends m n) : Extends l n :=
  ⟨h₁.classes.trans h₂.classes, h₁.bindings.trans h₂.bindings, h₁.contracts.trans h₂.contracts⟩

theorem declare_extends (l : Ledger C) (hash : ClassHash) (c : C) :
    Extends l (l.declare hash c) :=
  ⟨update_covers _ _ ⟨c, rfl⟩, Covers.refl _, Within.refl _⟩

theorem deploy_extends (l : Ledger C) (address : Felt252) (hash : ClassHash) :
    Extends l (l.deploy address hash) := by
  rw [deploy]
  split
  · exact Extends.refl l
  · exact ⟨Covers.refl _, claim_covers _ _ ⟨hash, rfl⟩, claim_within _ _ _⟩

theorem declare_present (l : Ledger C) (hash : ClassHash) (c : C) :
    Present ((l.declare hash c).classes hash) :=
  ⟨c, Function.update_self ..⟩

theorem deploy_present (l : Ledger C) {address : Felt252} (hash : ClassHash) (ha : address ≠ 0) :
    Present ((l.deploy address hash).contracts address) := by
  rw [deploy, if_neg ha]
  exact claim_present _ _ ⟨hash, rfl⟩ fun _ h => h.present

theorem deploy_taken (l : Ledger C) {address : Felt252} {hash : ClassHash} (ha : address ≠ 0)
    (hh : hash ≠ uninitialized) : Taken ((l.deploy address hash).contracts address) := by
  rw [deploy, if_neg ha]
  exact claim_present _ _ ⟨hash, rfl, hh⟩ fun _ h => h

theorem deploy_free {l : Ledger C} {address : Felt252} (hash : ClassHash)
    (ha : address ≠ 0) (hl : ¬ Taken (l.contracts address)) :
    (l.deploy address hash).contracts address = .ok hash := by
  rw [deploy, if_neg ha]
  change claim Taken l.contracts address (.ok hash) address = .ok hash
  rw [claim_of_free _ hl, Function.update_self]

theorem deploy_same {l : Ledger C} {address : Felt252} {hash : ClassHash}
    (hl : l.contracts address = .ok hash) : l.deploy address hash = l := by
  rw [deploy]
  split
  · rfl
  · by_cases ht : Taken (l.contracts address)
    · rw [claim_of_held _ ht]
    · rw [claim_of_free _ ht, ← hl, Function.update_eq_self]

end Ledger

namespace Starknet

variable {C S I : Type} (L : Starknet C S I)

def ledger (s : S) : Ledger C where
  classes := L.classAt s
  contracts := L.classHashAt s

variable {L}

theorem same_iff {s t : S} : L.Same s t ↔ L.ledger t = L.ledger s := by
  rw [ledger, ledger, Ledger.mk.injEq]
  exact ⟨fun h => ⟨h.classes, h.contracts⟩, fun h => ⟨h.1, h.2⟩⟩

theorem Same.ledger {s t : S} (h : L.Same s t) : L.ledger t = L.ledger s := same_iff.mp h

theorem vacant_iff {s : S} {a : Felt252} : L.Vacant s a ↔ ¬ Taken (L.classHashAt s a) := by
  simp only [Vacant, Taken, not_exists, not_and, not_not]

section StateLaws

variable (hL : L.StateLaws)

include hL

theorem new_not_taken (a : Felt252) : ¬ Taken (L.classHashAt L.newState a) :=
  vacant_iff.mp (hL.new_vacant a)

theorem new_class_not_present (h : ClassHash) : ¬ Present (L.classAt L.newState h) := by
  rintro ⟨c, hc⟩
  exact hL.new_class h c hc

theorem ledger_setContractClass (h : ClassHash) (c : C) (s : S) :
    ∃ t, (L.setContractClass h c).run s = .ok () t ∧ L.ledger t = (L.ledger s).declare h c := by
  obtain ⟨t, hr, hc, hs⟩ := hL.setContractClass_ok h c s
  refine ⟨t, hr, ?_⟩
  rw [Ledger.declare, ledger, Ledger.mk.injEq]
  exact ⟨hc, hs⟩

theorem ledger_deployContract (a : Felt252) (h : ClassHash) (s : S) :
    L.ledger (final ((L.deployContract a h).run s)) = (L.ledger s).deploy a h := by
  by_cases hfree : a ≠ 0 ∧ L.Vacant s a
  · obtain ⟨t, hr, hs, hc⟩ := hL.deployContract_free a h s hfree.1 hfree.2
    have hclaim := claim_of_free (.ok h) (vacant_iff.mp hfree.2)
    rw [hr, final_ok, Ledger.deploy, if_neg hfree.1, ledger, Ledger.mk.injEq]
    exact ⟨hc, hs.trans hclaim.symm⟩
  · obtain ⟨e, t, hr, hsame⟩ := hL.deployContract_taken a h s hfree
    rw [hr, final_error, hsame.ledger, Ledger.deploy]
    split
    · rfl
    · rename_i ha
      have htaken : Taken (L.classHashAt s a) := by
        by_contra hn
        exact hfree ⟨ha, vacant_iff.mpr hn⟩
      have hclaim := claim_of_held (.ok h) htaken
      rw [ledger, Ledger.mk.injEq]
      exact ⟨rfl, hclaim.symm⟩

end StateLaws

end Starknet

end Sequencer
