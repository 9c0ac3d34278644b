import StarknetSequencer.Wire.Segments
import StarknetSequencer.Sequencer.Reference

namespace Sequencer

open Wire Effect StarknetApp

variable {S : Type}

def totalTxBytes (txs : List Bytes) : Nat := (txs.map List.length).sum

theorem totalTxBytes_concat (txs : List Bytes) (tx : Bytes) :
    totalTxBytes (txs ++ [tx]) = totalTxBytes txs + tx.length := by
  simp [totalTxBytes]

theorem foldl_saturating {lens : List Nat} {acc : Nat} (h : acc + lens.sum ≤ usizeMax) :
    lens.foldl (fun acc len => min (acc + len) usizeMax) acc = acc + lens.sum := by
  induction lens generalizing acc with
  | nil => rfl
  | cons len lens ih =>
    rw [List.sum_cons, ← Nat.add_assoc] at h
    have hmin : min (acc + len) usizeMax = acc + len := Nat.min_eq_left (by omega)
    rw [List.foldl_cons, hmin, ih h, List.sum_cons, Nat.add_assoc]

def Fits (limit : Nat) (txs : List Bytes) : Prop := totalTxBytes txs ≤ limit

-- `popWhile` is entered with the total of what is left, and keeps it so
theorem popWhile_longest (limit : Nat) (txs : List Bytes) :
    LongestPrefix (Fits limit) txs (popWhile limit (totalTxBytes txs) txs.reverse).reverse := by
  induction txs using List.reverseRecOn with
  | nil => exact LongestPrefix.whole (Nat.zero_le limit)
  | append_singleton txs tx ih =>
    rw [List.reverse_append, List.reverse_singleton, List.singleton_append, popWhile]
    split
    · rename_i hlarge
      have hleft : totalTxBytes (txs ++ [tx]) - tx.length = totalTxBytes txs := by
        rw [totalTxBytes_concat, Nat.add_sub_cancel]
      rw [hleft]
      exact ih.concat (Nat.not_le.mpr hlarge)
    · rename_i hfits
      rw [List.reverse_cons, List.reverse_reverse]
      exact LongestPrefix.whole (Nat.not_lt.mp hfits)

theorem prepare_proposal_keeps_longest {txs : List Bytes}
    (htotal : totalTxBytes txs < 2 ^ 64) (maxTxBytes : Int64) (app : StarknetApp S) :
    ∃ kept, (prepareProposal txs maxTxBytes).run app = .ok kept app ∧ kept <+: txs ∧
      (totalTxBytes kept : Int) ≤ max maxTxBytes.toInt 0 ∧
      ∀ longer, longer <+: txs → (totalTxBytes longer : Int) ≤ max maxTxBytes.toInt 0 →
        longer <+: kept := by
  have hlimit (kept : List Bytes) : (totalTxBytes kept : Int) ≤ max maxTxBytes.toInt 0 ↔
      Fits maxTxBytes.toInt.toNat kept := by
    rw [Fits, ← Int.toNat_eq_max, Int.ofNat_le]
  have hfold : (txs.map List.length).foldl (fun acc len => min (acc + len) usizeMax) 0 =
      totalTxBytes txs := by
    have hsum : 0 + (txs.map List.length).sum ≤ usizeMax := by
      rw [Nat.zero_add]
      exact Nat.le_pred_of_lt htotal
    rw [foldl_saturating hsum, Nat.zero_add, totalTxBytes]
  refine ⟨_, rfl, ?_⟩
  rw [hfold]
  obtain ⟨hinitial, hfits, hmax⟩ := popWhile_longest maxTxBytes.toInt.toNat txs
  refine ⟨hinitial, (hlimit _).mpr hfits, fun longer hlonger hle => ?_⟩
  exact hmax longer hlonger ((hlimit longer).mp hle)

theorem prepare_proposal_keeps_longest_reference : ∃ kept,
    (prepareProposal [[1], [], [2, 3]] 2).run (fresh Reference.starknet) =
      .ok kept (fresh Reference.starknet) ∧ kept <+: [[1], [], [2, 3]] ∧
    (totalTxBytes kept : Int) ≤ max (2 : Int64).toInt 0 ∧
    ∀ longer, longer <+: [[1], [], [2, 3]] →
      (totalTxBytes longer : Int) ≤ max (2 : Int64).toInt 0 → longer <+: kept :=
  prepare_proposal_keeps_longest (by decide) 2 (fresh Reference.starknet)

end Sequencer
