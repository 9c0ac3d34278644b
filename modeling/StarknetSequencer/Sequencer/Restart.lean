import StarknetSequencer.Sequencer.Block
import StarknetSequencer.Sequencer.Reference

namespace Sequencer

open Wire Effect StarknetApp

variable {C S I : Type} (L : Starknet C S I)

namespace StarknetApp

def restart : Hook S Unit := fun app =>
  match StarknetApp.new L app.heightFile with
  | .ok app => .ok () app
  | .error panic => .error panic app

def restarted (height : Int64) : StarknetApp S :=
  { fresh L with heightFile := some (HeightFile.encode height) }

def blocksAbove (height : Int64) (blocks : List (List Bytes)) : List (List Bytes) :=
  ((blocks.zipIdx 1).filter fun block => height.toInt < block.2).map Prod.fst

def deliverRestarting (blocks : List (List Bytes)) (k : Nat) :
    Hook S (List (List ResponseDeliverTx × ResponseCommit)) := do
  let _ ← deliverBlocks L (blocks.take k)
  restart L
  let response ← info
  deliverBlocks L (blocksAbove response.lastBlockHeight blocks)

end StarknetApp

-- a ledger that holds nothing but what `newState` holds is altered by these transactions alone
def TransactionType.Alters : TransactionType → Prop
  | .declare program => (declared L program).isSome
  | .deployAccount classHash salt inputs =>
    ∃ address hash, deployed L classHash salt inputs = some address ∧ address ≠ 0 ∧
      L.stringToHash classHash = some hash ∧ L.classHashAt L.newState address ≠ .ok hash
  | .invoke .. => False

variable {L}

theorem effect_of_not_alters {t : TransactionType} (h : ¬ t.Alters L) :
    effect L t (L.ledger L.newState) = L.ledger L.newState := by
  cases t with
  | declare program =>
    rw [TransactionType.Alters, Option.not_isSome_iff_eq_none] at h
    rw [effect, h]
  | deployAccount classHash salt inputs =>
    rw [effect]
    split
    · rename_i address hash hd hs
      by_cases ha : address = 0
      · rw [Ledger.deploy, if_pos ha]
      · apply Ledger.deploy_same
        by_contra hn
        exact h ⟨address, hash, hd, ha, hs, hn⟩
    · rfl
  | invoke address function inputs => rfl

theorem effect_of_alters (hL : L.StateLaws) {t : TransactionType} (h : t.Alters L)
    {l m : Ledger C} (hm : Ledger.Extends (effect L t l) m) : m ≠ L.ledger L.newState := by
  rintro rfl
  cases t with
  | declare program =>
    obtain ⟨⟨felt, c⟩, hd⟩ := Option.isSome_iff_exists.mp h
    rw [effect, hd] at hm
    exact Starknet.new_class_not_present hL _ (hm.classes _ (Ledger.declare_present l _ c))
  | deployAccount classHash salt inputs =>
    obtain ⟨address, hash, hd, ha, hs, hne⟩ := h
    rw [effect, hd, hs] at hm
    by_cases hh : hash = uninitialized
    · -- the zero hash is the only one `newState` may hold, and it does not hold it here
      obtain ⟨bound, hb⟩ := hm.bindings address (Ledger.deploy_present l hash ha)
      have hzero : bound = uninitialized := hL.new_vacant address bound hb
      rw [hh, ← hzero] at hne
      exact hne hb
    · have ht := Ledger.deploy_taken l ha hh
      have hkept := hm.contracts address ht
      rw [← hkept] at ht
      exact Starknet.new_not_taken hL address ht
  | invoke address function inputs => exact h.elim

theorem Chain.deliverAll_ledger_new (hL : L.StateLaws) {txs : List Bytes} (chain : Chain C)
    (hc : chain.ledger = L.ledger L.newState) :
    (chain.deliverAll L txs).ledger = L.ledger L.newState ↔
      ∀ request ∈ txs, ∀ tx, passed L request = some tx → ¬ tx.transactionType.Alters L := by
  induction txs generalizing chain with
  | nil => simpa [deliverAll] using hc
  | cons request txs ih =>
    have hstep : chain.deliverAll L (request :: txs) =
        (chain.deliver L request).deliverAll L txs := rfl
    rw [hstep, List.forall_mem_cons]
    cases hp : passed L request with
    | none =>
      rw [deliver_not_passed hp, ih chain hc]
      simp
    | some tx =>
      rw [deliver_passed hp]
      by_cases ha : tx.transactionType.Alters L
      · have hne := effect_of_alters hL ha (deliverAll_extends (L := L) (chain.apply L tx) txs)
        constructor
        · exact fun h => absurd h hne
        · exact fun h => absurd ha (h.1 tx rfl)
      · have hsame : (chain.apply L tx).ledger = L.ledger L.newState := by
          rw [apply, hc, effect_of_not_alters ha]
        rw [ih _ hsame]
        constructor
        · intro h
          refine ⟨?_, h⟩
          rintro tx' ⟨⟩
          exact ha
        · exact fun h => h.2

theorem filter_zipIdx_above (blocks : List (List Bytes)) (m k : Nat) :
    ((blocks.zipIdx m).filter fun block => (k : Int) < block.2).map Prod.fst =
      blocks.drop (k + 1 - m) := by
  induction blocks generalizing m with
  | nil => simp
  | cons txs blocks ih =>
    rw [List.zipIdx_cons, List.filter_cons]
    split
    · rename_i hlt
      have hkm : k < m := by simpa using hlt
      have hz : k + 1 - m = 0 := by omega
      have hz' : k + 1 - (m + 1) = 0 := by omega
      rw [List.map_cons, ih, hz, hz', List.drop_zero, List.drop_zero]
    · rename_i hlt
      have hkm : m ≤ k := by simpa using hlt
      have hs : k + 1 - m = (k + 1 - (m + 1)) + 1 := by omega
      rw [ih, hs, List.drop_succ_cons]

theorem blocksAbove_ofNat {k : Nat} (hk : k < 2 ^ 63) (blocks : List (List Bytes)) :
    blocksAbove (Int64.ofNat k) blocks = blocks.drop k := by
  rw [blocksAbove, Int64.toInt_ofNat_of_lt hk]
  exact filter_zipIdx_above blocks 1 k

theorem run_restart {app : StarknetApp S} {height : Int64}
    (h : app.heightFile = some (HeightFile.encode height)) :
    (restart L).run app = .ok () (restarted L height) := by
  change (match StarknetApp.new L app.heightFile with
    | .ok app => EStateM.Result.ok () app
    | .error panic => EStateM.Result.error panic app) = _
  rw [h, new_encode, restarted]

theorem run_deliverRestarting {blocks : List (List Bytes)} {k : Nat} (hk : k ≤ blocks.length)
    (hn : blocks.length < 2 ^ 63) {app app₁ : StarknetApp S}
    {results : List (List ResponseDeliverTx × ResponseCommit)}
    (h : (deliverBlocks L (blocks.take k)).run app = .ok results app₁)
    (hf : app₁.heightFile = some (HeightFile.encode (Int64.ofNat k))) :
    (deliverRestarting L blocks k).run app =
      (deliverBlocks L (blocks.drop k)).run (restarted L (Int64.ofNat k)) := by
  have hat : (restarted L (Int64.ofNat k)).AtHeight (Int64.ofNat k) :=
    ⟨_, rfl, HeightFile.decode_encode _⟩
  have habove := blocksAbove_ofNat (lt_of_le_of_lt hk hn) blocks
  simp only [deliverRestarting, EStateM.run_bind, h, run_restart hf, run_info hat, habove]

theorem deliverBlocks_counted {app app' : StarknetApp S} (hh : app'.hasher = app.hasher)
    (hs : app'.starknetState = app.starknetState) (hf : app'.heightFile = app.heightFile)
    (txs : List Bytes) (blocks : List (List Bytes)) :
    (deliverBlocks L (txs :: blocks)).run app' = (deliverBlocks L (txs :: blocks)).run app := by
  have happ : app' = { app with transactions := app'.transactions } := by
    rw [← hh, ← hs, ← hf]
  rw [happ]
  simp only [deliverBlocks, List.mapM_cons, EStateM.run_bind, deliverBlock_counted]

theorem appHashes_genesis (hsha : Function.Injective L.sha256) {txs : List Bytes}
    {blocks : List (List Bytes)} {chain : Chain C}
    (h : appHashes L (Chain.genesis L) (txs :: blocks) = appHashes L chain (txs :: blocks)) :
    chain.stream = [] := by
  rw [appHashes, appHashes, List.cons.injEq] at h
  have hstream := hsha h.1
  rw [Chain.deliverAll_stream, Chain.deliverAll_stream] at hstream
  exact (List.append_cancel_right hstream).symm

theorem deliverBlocks_same_new (hL : L.StateLaws) {blocks : List (List Bytes)}
    {results : List (List ResponseDeliverTx × ResponseCommit)} {app' : StarknetApp S}
    (hrun : (deliverBlocks L blocks).run (fresh L) = .ok results app') :
    L.Same L.newState app'.starknetState.data ↔
      ∀ request ∈ blocks.flatten, ∀ tx, passed L request = some tx →
        ¬ tx.transactionType.Alters L := by
  obtain ⟨-, hc, -⟩ := deliverBlocks_ok hL fresh_healthy fresh_atHeight hrun
  have hledger := congrArg Chain.ledger hc
  change L.ledger app'.starknetState.data = _ at hledger
  rw [Starknet.same_iff, hledger]
  exact Chain.deliverAll_ledger_new hL (Chain.genesis L) rfl

section Restarted

variable {earlier later : List (List Bytes)} {txs : List Bytes} {height : Int64}
  {first : List (List ResponseDeliverTx × ResponseCommit)} {app₁ : StarknetApp S}

theorem run_restarted_of_not_passed
    (hfirst : (deliverBlocks L earlier).run (fresh L) = .ok first app₁)
    (hf : app₁.heightFile = some (HeightFile.encode height))
    (hp : ∀ tx ∈ earlier.flatten, passed L tx = none) :
    (deliverBlocks L (txs :: later)).run (restarted L height) =
      (deliverBlocks L (txs :: later)).run app₁ := by
  obtain ⟨hhash, hstate⟩ := deliverBlocks_not_passed rfl fresh_atHeight hp hfirst
  apply deliverBlocks_counted
  · exact hhash.symm
  · exact hstate.symm
  · exact hf.symm

theorem not_passed_of_restarted (hL : L.StateLaws) (hsha : Function.Injective L.sha256)
    {rest rest' : List (List ResponseDeliverTx × ResponseCommit)} {app' app'' : StarknetApp S}
    (hfirst : (deliverBlocks L earlier).run (fresh L) = .ok first app₁)
    (hf : app₁.heightFile = some (HeightFile.encode height))
    (hrest : (deliverBlocks L (txs :: later)).run app₁ = .ok rest app')
    (hrest' : (deliverBlocks L (txs :: later)).run (restarted L height) = .ok rest' app'')
    (hdata : rest'.map (fun result => result.2.data) = rest.map (fun result => result.2.data)) :
    ∀ tx ∈ earlier.flatten, passed L tx = none := by
  have hat : ∀ app : StarknetApp S, app.heightFile = some (HeightFile.encode height) →
      app.AtHeight height := fun app h => ⟨_, h, HeightFile.decode_encode _⟩
  obtain ⟨hh, hc, -⟩ := deliverBlocks_ok hL fresh_healthy fresh_atHeight hfirst
  obtain ⟨-, -, hA⟩ := deliverBlocks_ok hL hh (hat app₁ hf) hrest
  have hhealthy : StarknetApp.Healthy (restarted L height) := ⟨rfl, rfl⟩
  have hgenesis : (restarted L height).chain L = Chain.genesis L := fresh_chain
  obtain ⟨-, -, hB⟩ := deliverBlocks_ok hL hhealthy (hat _ rfl) hrest'
  rw [hA, hB, hgenesis] at hdata
  have hstream := appHashes_genesis hsha hdata
  rw [hc, fresh_chain, Chain.deliverAll_stream] at hstream
  exact streams_eq_nil.mp hstream

end Restarted

theorem restart_durable_iff (hL : L.StateLaws) (hsha : Function.Injective L.sha256)
    {blocks : List (List Bytes)} {k : Nat} (hk : k ≤ blocks.length)
    (hn : blocks.length < 2 ^ 63) {app app' : StarknetApp S}
    {results : List (List ResponseDeliverTx × ResponseCommit)}
    (hnew : StarknetApp.new L none = .ok app)
    (hrun : (deliverBlocks L blocks).run app = .ok results app') :
    (∃ results' app'', (deliverRestarting L blocks k).run app = .ok results' app'' ∧
      results'.map (fun result => result.2.data) =
        (results.drop k).map (fun result => result.2.data) ∧
      L.Same app'.starknetState.data app''.starknetState.data) ↔
    (∀ tx ∈ (blocks.take k).flatten, passed L tx = none) ∨
      k = blocks.length ∧ ∀ request ∈ blocks.flatten, ∀ tx,
        passed L request = some tx → ¬ tx.transactionType.Alters L := by
  cases hnew
  have hsplit := hrun
  rw [← List.take_append_drop k blocks] at hsplit
  obtain ⟨first, rest, app₁, hfirst, hrest, rfl⟩ := run_mapM_append.mp hsplit
  have hlen : first.length = k := by
    rw [length_of_run_mapM hfirst, List.length_take, Nat.min_eq_left hk]
  have hdrop : (first ++ rest).drop k = rest := List.drop_left' hlen
  have hf₁ := deliverBlocks_heightFile hL fresh_healthy rfl hfirst
  rw [List.length_take, Nat.min_eq_left hk, Int64.zero_add] at hf₁
  rw [run_deliverRestarting hk hn hfirst hf₁, hdrop, ← deliverBlocks_same_new hL hrun]
  cases hd : blocks.drop k with
  | nil =>
    have hkn : k = blocks.length := le_antisymm hk (List.drop_eq_nil_iff.mp hd)
    rw [hd] at hrest
    cases run_mapM_nil.symm.trans hrest
    constructor
    · rintro ⟨results', app'', hB, -, hsame⟩
      cases run_mapM_nil.symm.trans hB
      exact .inr ⟨hkn, hsame.symm⟩
    · intro h
      refine ⟨[], _, run_mapM_nil, rfl, ?_⟩
      rcases h with hp | ⟨-, hsame⟩
      · obtain ⟨-, hstate⟩ := deliverBlocks_not_passed rfl fresh_atHeight hp hfirst
        rw [hstate]
        exact Starknet.Same.refl _
      · exact hsame.symm
  | cons txs later =>
    have hkn : k ≠ blocks.length := by
      rintro rfl
      simp at hd
    rw [hd] at hrest
    constructor
    · rintro ⟨results', app'', hB, hmap, -⟩
      exact .inl (not_passed_of_restarted hL hsha hfirst hf₁ hrest hB hmap)
    · rintro (hp | ⟨h, -⟩)
      · exact ⟨rest, app', (run_restarted_of_not_passed hfirst hf₁ hp).trans hrest, rfl,
          Starknet.Same.refl _⟩
      · exact absurd h hkn

namespace Reference

def strayBlocks : List (List Bytes) := [[request stray], []]

def strayApp (height : Int64) (transactions : Nat) : StarknetApp Cache :=
  { restarted starknet height with
    hasher := ⟨utf8 stray.transactionHash, false⟩
    transactions }

theorem run_firstBlock : (deliverBlocks starknet (strayBlocks.take 1)).run (fresh starknet) =
    .ok [([accepted stray], ⟨utf8 stray.transactionHash, 0⟩)] (strayApp 1 1) :=
  run_mapM_cons.mpr ⟨_, [], strayApp 1 1, run_block_stray rfl fresh_atHeight, run_mapM_nil, rfl⟩

theorem run_secondBlock : (deliverBlocks starknet [[]]).run (strayApp 1 1) =
    .ok [([], ⟨utf8 stray.transactionHash, 0⟩)] (strayApp 2 0) :=
  run_mapM_cons.mpr ⟨_, [], strayApp 2 0,
    run_block_nil rfl ⟨_, rfl, HeightFile.decode_encode 1⟩, run_mapM_nil, rfl⟩

theorem run_strayBlocks : (deliverBlocks starknet strayBlocks).run (fresh starknet) =
    .ok [([accepted stray], ⟨utf8 stray.transactionHash, 0⟩), ([], ⟨utf8 stray.transactionHash, 0⟩)]
      (strayApp 2 0) := by
  rw [deliverBlocks, ← List.take_append_drop 1 strayBlocks]
  exact run_mapM_append.mpr ⟨_, _, _, run_firstBlock, run_secondBlock, rfl⟩

theorem run_restarting_stray :
    (deliverRestarting starknet strayBlocks 1).run (fresh starknet) =
      .ok [([], ⟨[], 0⟩)] { restarted starknet 2 with transactions := 0 } := by
  rw [run_deliverRestarting (by decide) (by decide) run_firstBlock rfl]
  exact run_mapM_cons.mpr ⟨_, [], restarted starknet 2,
    run_block_nil rfl ⟨_, rfl, HeightFile.decode_encode 1⟩, run_mapM_nil, rfl⟩

end Reference

theorem restart_durable_iff_stray :
    (∃ results' app'',
      (deliverRestarting Reference.starknet Reference.strayBlocks 1).run
        (fresh Reference.starknet) = .ok results' app'' ∧
      results'.map (fun result => result.2.data) = [utf8 Reference.stray.transactionHash] ∧
      Reference.starknet.Same (Reference.strayApp 2 0).starknetState.data
        app''.starknetState.data) ↔
    (∀ tx ∈ (Reference.strayBlocks.take 1).flatten, passed Reference.starknet tx = none) ∨
      1 = Reference.strayBlocks.length ∧ ∀ request ∈ Reference.strayBlocks.flatten, ∀ tx,
        passed Reference.starknet request = some tx →
          ¬ tx.transactionType.Alters Reference.starknet :=
  restart_durable_iff Reference.stateLaws Reference.hashLaws.sha256_inj (by decide) (by decide)
    rfl Reference.run_strayBlocks

theorem restart_forks :
    ∃ results app',
      (deliverBlocks Reference.starknet Reference.strayBlocks).run (fresh Reference.starknet) =
        .ok results app' ∧
      ¬ ∃ results' app'',
        (deliverRestarting Reference.starknet Reference.strayBlocks 1).run
          (fresh Reference.starknet) = .ok results' app'' ∧
        results'.map (fun result => result.2.data) =
          (results.drop 1).map (fun result => result.2.data) ∧
        Reference.starknet.Same app'.starknetState.data app''.starknetState.data := by
  refine ⟨_, _, Reference.run_strayBlocks, ?_⟩
  rintro ⟨results', app'', hrun, hdata, -⟩
  cases Reference.run_restarting_stray.symm.trans hrun
  have hnil : utf8 Reference.stray.transactionHash = [] := (List.cons.inj hdata).1.symm
  exact transactionHash_ne Reference.passed_stray hnil

end Sequencer
