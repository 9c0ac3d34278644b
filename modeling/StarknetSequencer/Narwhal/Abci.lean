import StarknetSequencer.Sequencer.Application

namespace Narwhal

open Wire
open Sequencer (ResponseInfo)

structure RequestQuery where
  data : Bytes
  path : String
  height : Int64
  prove : Bool
deriving DecidableEq

structure ResponseQuery where
  code : Nat
  log : String
  info : String
  index : Int64
  key : Bytes
  value : Bytes
  height : Int64
  codespace : String
deriving DecidableEq

inductive BlockCall where
  | initChain
  | beginBlock (height : Int64)
  | deliverTx (tx : Bytes)
  | endBlock (height : Int64)
  | commit
deriving DecidableEq

-- the process behind `app_address`, as a client of it sees it: any call may come back as an error
structure AbciApp (σ : Type) where
  connect : EStateM String σ Unit
  info : EStateM String σ ResponseInfo
  query : RequestQuery → EStateM String σ ResponseQuery
  call : BlockCall → EStateM String σ Unit

structure AbciApp.AnswersBlocks {σ : Type} (app : AbciApp σ) : Prop where
  connects : ∀ s, ∃ t, app.connect.run s = .ok () t
  answers : ∀ call s, ∃ t, (app.call call).run s = .ok () t

def blockCalls (height : Int64) (txs : List Bytes) : List BlockCall :=
  .beginBlock height :: txs.map .deliverTx ++ [.endBlock height, .commit]

def chainCalls (height : Int64) : List (List Bytes) → List BlockCall
  | [] => []
  | txs :: blocks => blockCalls (height + 1) txs ++ chainCalls (height + 1) blocks

def proposedHeights (calls : List BlockCall) : List Int64 :=
  calls.filterMap fun
    | .beginBlock height => some height
    | _ => none

@[simp] theorem proposedHeights_append (calls calls' : List BlockCall) :
    proposedHeights (calls ++ calls') = proposedHeights calls ++ proposedHeights calls' :=
  List.filterMap_append

@[simp] theorem proposedHeights_deliverTx (txs : List Bytes) :
    proposedHeights (txs.map .deliverTx) = [] := by
  rw [proposedHeights, List.filterMap_map, List.filterMap_eq_nil_iff]
  intro tx htx
  rfl

theorem proposedHeights_blockCalls (height : Int64) (txs : List Bytes) :
    proposedHeights (blockCalls height txs) = [height] := by
  have hsplit : blockCalls height txs =
      [.beginBlock height] ++ txs.map .deliverTx ++ [.endBlock height, .commit] := rfl
  rw [hsplit, proposedHeights_append, proposedHeights_append, proposedHeights_deliverTx]
  rfl

theorem count_commit_blockCalls (height : Int64) (txs : List Bytes) :
    (blockCalls height txs).count .commit = 1 := by
  have htxs : (txs.map BlockCall.deliverTx).count .commit = 0 := by
    rw [List.count_eq_zero]
    intro hmem
    obtain ⟨tx, -, h⟩ := List.mem_map.mp hmem
    cases h
  rw [blockCalls, List.cons_append, List.count_cons, List.count_append, htxs]
  rfl

theorem count_commit_chainCalls (height : Int64) (blocks : List (List Bytes)) :
    (chainCalls height blocks).count .commit = blocks.length := by
  induction blocks generalizing height with
  | nil => rfl
  | cons txs blocks ih =>
    rw [chainCalls, List.count_append, count_commit_blockCalls, ih, List.length_cons, Nat.add_comm]

theorem proposedHeights_chainCalls (height : Int64) (blocks : List (List Bytes)) :
    proposedHeights (chainCalls height blocks) =
      (List.range blocks.length).map fun k => height + Int64.ofNat (k + 1) := by
  induction blocks generalizing height with
  | nil => rfl
  | cons txs blocks ih =>
    rw [chainCalls, proposedHeights_append, proposedHeights_blockCalls, ih, List.length_cons,
      List.range_succ_eq_map, List.map_cons, List.map_map, List.singleton_append]
    congr 1
    apply List.map_congr_left
    intro k hk
    have hs : Int64.ofNat (k + 1 + 1) = 1 + Int64.ofNat (k + 1) := by
      rw [Int64.ofNat_add, Int64.add_comm]
      rfl
    rw [Function.comp_apply, Nat.succ_eq_add_one, hs, Int64.add_assoc]

theorem toInt_proposed {height : Int64} {n k : Nat} (hn : height.toInt + n < 2 ^ 63)
    (hk : k < n) : (height + Int64.ofNat (k + 1)).toInt = height.toInt + (k + 1) := by
  have hlow : -2 ^ 63 ≤ height.toInt := height.le_toInt
  have hmod : (height.toInt + (k + 1)).bmod (2 ^ 64) = height.toInt + (k + 1) :=
    Int.bmod_eq_of_le (by norm_num; omega) (by norm_num; omega)
  rw [Int64.toInt_add, Int64.toInt_ofNat', Int.add_bmod_bmod]
  exact hmod

theorem toInt_proposedHeights {height : Int64} {blocks : List (List Bytes)}
    (h : height.toInt + blocks.length < 2 ^ 63) :
    (proposedHeights (chainCalls height blocks)).map Int64.toInt =
      (List.range blocks.length).map fun k : Nat => height.toInt + (k + 1) := by
  rw [proposedHeights_chainCalls, List.map_map]
  apply List.map_congr_left
  intro k hk
  exact toInt_proposed h (List.mem_range.mp hk)

end Narwhal
