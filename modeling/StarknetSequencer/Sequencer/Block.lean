import StarknetSequencer.Sequencer.Chain

namespace Sequencer

open Wire Effect StarknetApp

variable {C S I : Type} (L : Starknet C S I)

namespace StarknetApp

def deliverTxs (txs : List Bytes) : Hook S (List ResponseDeliverTx) :=
  txs.mapM (deliverTx L)

def deliverBlock (txs : List Bytes) : Hook S (List ResponseDeliverTx × ResponseCommit) := do
  beginBlock
  let responses ← deliverTxs L txs
  endBlock
  let response ← commit L
  return (responses, response)

def deliverBlocks (blocks : List (List Bytes)) :
    Hook S (List (List ResponseDeliverTx × ResponseCommit)) :=
  blocks.mapM (deliverBlock L)

def fresh : StarknetApp S where
  hasher := Mutex.new []
  starknetState := Mutex.new L.newState
  transactions := 0
  heightFile := some (HeightFile.encode 0)

def AtHeight (app : StarknetApp S) (height : Int64) : Prop :=
  ∃ bytes, app.heightFile = some bytes ∧ HeightFile.decode bytes = some height

end StarknetApp

def appHashes : Chain C → List (List Bytes) → List Bytes
  | _, [] => []
  | chain, txs :: blocks =>
    L.sha256 (chain.deliverAll L txs).stream :: appHashes (chain.deliverAll L txs) blocks

def streamOf (request : Bytes) : Bytes :=
  match passed L request with
  | some tx => utf8 tx.transactionHash
  | none => []

variable {L}

theorem new_missing : StarknetApp.new L none = .ok (fresh L) := rfl

theorem new_encode (height : Int64) : StarknetApp.new L (some (HeightFile.encode height)) =
    .ok { fresh L with heightFile := some (HeightFile.encode height) } := by
  rw [StarknetApp.new, HeightFile.readOrCreate_encode]
  rfl

theorem fresh_healthy : (fresh L).Healthy := ⟨rfl, rfl⟩

theorem fresh_atHeight : (fresh L).AtHeight 0 := ⟨_, rfl, HeightFile.decode_encode 0⟩

theorem fresh_chain : (fresh L).chain L = Chain.genesis L := rfl

theorem new_fresh {heightFile : Option Bytes} {app : StarknetApp S}
    (h : StarknetApp.new L heightFile = .ok app) :
    ∃ file, app = { fresh L with heightFile := file } := by
  rw [StarknetApp.new] at h
  split at h
  · cases h
    exact ⟨_, rfl⟩
  · cases h

theorem new_chain {heightFile : Option Bytes} {app : StarknetApp S}
    (h : StarknetApp.new L heightFile = .ok app) : app.chain L = Chain.genesis L := by
  obtain ⟨file, rfl⟩ := new_fresh h
  exact fresh_chain

theorem new_healthy {heightFile : Option Bytes} {app : StarknetApp S}
    (h : StarknetApp.new L heightFile = .ok app) : app.Healthy := by
  obtain ⟨file, rfl⟩ := new_fresh h
  exact ⟨rfl, rfl⟩

theorem streamOf_passed {request : Bytes} {tx : Transaction} (h : passed L request = some tx) :
    streamOf L request = utf8 tx.transactionHash := by
  rw [streamOf, h]

theorem streamOf_not_passed {request : Bytes} (h : passed L request = none) :
    streamOf L request = [] := by
  rw [streamOf, h]

theorem Chain.deliver_stream (chain : Chain C) (request : Bytes) :
    (chain.deliver L request).stream = chain.stream ++ streamOf L request := by
  cases h : passed L request with
  | none => rw [deliver_not_passed h, streamOf_not_passed h, List.append_nil]
  | some tx => rw [deliver_passed h, streamOf_passed h, apply]

theorem Chain.deliverAll_stream (chain : Chain C) (requests : List Bytes) :
    (chain.deliverAll L requests).stream =
      chain.stream ++ (requests.map (streamOf L)).flatten := by
  induction requests generalizing chain with
  | nil => simp [deliverAll]
  | cons request requests ih =>
    have hrest := ih (chain.deliver L request)
    rw [deliverAll, List.foldl_cons, ← deliverAll, hrest, deliver_stream, List.map_cons,
      List.flatten_cons, List.append_assoc]

theorem deliverTx_not_passed {request : Bytes} {r : ResponseDeliverTx} {app app' : StarknetApp S}
    (hp : passed L request = none) (h : (deliverTx L request).run app = .ok r app') :
    app' = app.counted ∧ ∃ message, r = rejected message := by
  rcases checked_cases (L := L) request with ⟨p, hc⟩ | ⟨message, hc⟩ | ⟨tx, hc⟩
  · rw [run_deliverTx_error hc] at h
    cases h
  · rw [run_deliverTx_rejected hc] at h
    cases h
    exact ⟨rfl, message, rfl⟩
  · rw [passed_eq_some.mpr hc] at hp
    cases hp

-- also when the call panics, since a panic comes before the hasher is locked or after it is freed
theorem final_deliverTx (request : Bytes) {app : StarknetApp S}
    (hh : app.hasher.poisoned = false) :
    (final ((deliverTx L request).run app)).heightFile = app.heightFile ∧
      (final ((deliverTx L request).run app)).hasher =
        ⟨app.hasher.data ++ streamOf L request, false⟩ := by
  have hself : app.hasher = ⟨app.hasher.data, false⟩ := by rw [← hh]
  rcases checked_cases (L := L) request with ⟨p, hc⟩ | ⟨message, hc⟩ | ⟨tx, hc⟩
  · have hp : passed L request = none := by rw [passed, hc]
    rw [run_deliverTx_error hc, streamOf_not_passed hp, List.append_nil]
    exact ⟨rfl, hself⟩
  · have hp : passed L request = none := by rw [passed, hc]
    rw [run_deliverTx_rejected hc, streamOf_not_passed hp, List.append_nil]
    exact ⟨rfl, hself⟩
  · have hp := passed_eq_some.mpr hc
    have hframe := deliver_moves (L := L) tx.transactionType (app.hashed tx)
    rw [run_deliverTx_passed hp hh, streamOf_passed hp]
    cases hr : (deliver L tx.transactionType).run (app.hashed tx) with
    | ok a app' =>
      rw [hr] at hframe
      exact ⟨hframe.heightFile, hframe.hasher⟩
    | error p app' =>
      rw [hr] at hframe
      exact ⟨hframe.heightFile, hframe.hasher⟩

theorem deliverTx_ok (hL : L.StateLaws) {request : Bytes} {r : ResponseDeliverTx}
    {app app' : StarknetApp S} (hh : app.Healthy)
    (h : (deliverTx L request).run app = .ok r app') :
    app'.Healthy ∧ app'.heightFile = app.heightFile ∧
      app'.chain L = (app.chain L).deliver L request := by
  obtain ⟨hfile, hhash⟩ := final_deliverTx (L := L) request hh.hasher
  rw [h, final_ok] at hfile hhash
  cases hp : passed L request with
  | none =>
    obtain ⟨rfl, -⟩ := deliverTx_not_passed hp h
    rw [Chain.deliver_not_passed hp]
    exact ⟨⟨hh.hasher, hh.starknetState⟩, rfl, rfl⟩
  | some tx =>
    rw [run_deliverTx_passed hp hh.hasher] at h
    split at h
    · rename_i app₁ hd
      cases h
      have hs₀ : (app.hashed tx).starknetState.poisoned = false := hh.starknetState
      obtain ⟨hs, hl⟩ := deliver_ok hL hp hs₀ hd
      refine ⟨⟨by rw [hhash], hs⟩, hfile, ?_⟩
      rw [Chain.deliver_passed hp, Chain.apply, StarknetApp.chain, Chain.mk.injEq]
      exact ⟨by rw [hhash, streamOf_passed hp]; rfl, hl⟩
    · cases h

theorem deliverTxs_ok (hL : L.StateLaws) {txs : List Bytes} {rs : List ResponseDeliverTx}
    {app app' : StarknetApp S} (hh : app.Healthy)
    (h : (deliverTxs L txs).run app = .ok rs app') :
    app'.Healthy ∧ app'.heightFile = app.heightFile ∧
      app'.chain L = (app.chain L).deliverAll L txs := by
  induction txs generalizing app rs with
  | nil =>
    cases run_mapM_nil.symm.trans h
    exact ⟨hh, rfl, rfl⟩
  | cons tx txs ih =>
    obtain ⟨r, rs', app₁, htx, htxs, -⟩ := run_mapM_cons.mp h
    obtain ⟨hh₁, hf₁, hc₁⟩ := deliverTx_ok hL hh htx
    obtain ⟨hh', hf', hc'⟩ := ih hh₁ htxs
    exact ⟨hh', hf'.trans hf₁, by rw [hc', hc₁]; rfl⟩

theorem run_info {app : StarknetApp S} {height : Int64} (h : app.AtHeight height) :
    info.run app = .ok ⟨"cairo-app", "0.1.0", 1, height, []⟩ app := by
  obtain ⟨bytes, hfile, hdec⟩ := h
  simp only [info, withHeightFile, EStateM.run_bind, run_zoom, HeightFile.readOrCreate,
    EStateM.run_get, hfile, hdec, run_orThrow_some, EStateM.run_pure]
  rw [← hfile]

theorem run_commit {app : StarknetApp S} {height : Int64} (hh : app.hasher.poisoned = false)
    (ha : app.AtHeight height) :
    (commit L).run app = .ok ⟨L.sha256 app.hasher.data, 0⟩
      { app with heightFile := some (HeightFile.encode (height + 1)) } := by
  obtain ⟨bytes, hfile, hdec⟩ := ha
  have hself : app.hasher = ⟨app.hasher.data, false⟩ := by rw [← hh]
  simp only [commit, EStateM.run_bind, run_withHasher _ hh, EStateM.run_get, EStateM.run_pure,
    withHeightFile, run_zoom, HeightFile.increment, hfile, run_orThrow_some, hdec,
    EStateM.run_set]
  rw [← hself]

theorem run_deliverBlock_ok {txs : List Bytes}
    {result : List ResponseDeliverTx × ResponseCommit} {app app' : StarknetApp S} :
    (deliverBlock L txs).run app = .ok result app' ↔
      ∃ app₁, (deliverTxs L txs).run { app with transactions := 0 } = .ok result.1 app₁ ∧
        (commit L).run app₁ = .ok result.2 app' := by
  constructor
  · intro h
    obtain ⟨_, app₀, hb, h⟩ := run_bind_ok.mp h
    cases hb
    obtain ⟨rs, app₁, hd, h⟩ := run_bind_ok.mp h
    obtain ⟨_, app₂, he, h⟩ := run_bind_ok.mp h
    cases he
    obtain ⟨c, app₃, hc, h⟩ := run_bind_ok.mp h
    cases h
    exact ⟨app₁, hd, hc⟩
  · rintro ⟨app₁, hd, hc⟩
    apply run_bind_ok.mpr
    refine ⟨(), { app with transactions := 0 }, rfl, ?_⟩
    apply run_bind_ok.mpr
    refine ⟨result.1, app₁, hd, ?_⟩
    apply run_bind_ok.mpr
    refine ⟨(), app₁, rfl, ?_⟩
    exact run_bind_ok.mpr ⟨result.2, app', hc, rfl⟩

theorem run_deliverBlock {txs : List Bytes} {rs : List ResponseDeliverTx}
    {app app₁ : StarknetApp S} {height : Int64}
    (h : (deliverTxs L txs).run { app with transactions := 0 } = .ok rs app₁)
    (hh : app₁.hasher.poisoned = false) (ha : app₁.AtHeight height) :
    (deliverBlock L txs).run app = .ok (rs, ⟨L.sha256 app₁.hasher.data, 0⟩)
      { app₁ with heightFile := some (HeightFile.encode (height + 1)) } :=
  run_deliverBlock_ok.mpr ⟨app₁, h, run_commit hh ha⟩

theorem deliverBlock_ok (hL : L.StateLaws) {txs : List Bytes}
    {result : List ResponseDeliverTx × ResponseCommit} {app app' : StarknetApp S}
    {height : Int64} (hh : app.Healthy) (ha : app.AtHeight height)
    (h : (deliverBlock L txs).run app = .ok result app') :
    app'.Healthy ∧ app'.heightFile = some (HeightFile.encode (height + 1)) ∧
      app'.chain L = (app.chain L).deliverAll L txs ∧
      result.2.data = L.sha256 (app'.chain L).stream := by
  obtain ⟨app₁, hd, hc⟩ := run_deliverBlock_ok.mp h
  have hh₀ : StarknetApp.Healthy { app with transactions := 0 } := ⟨hh.hasher, hh.starknetState⟩
  obtain ⟨hh₁, hf₁, hc₁⟩ := deliverTxs_ok hL hh₀ hd
  have ha₁ : app₁.AtHeight height := ha.imp fun bytes hb => ⟨hf₁.trans hb.1, hb.2⟩
  rw [run_commit hh₁.hasher ha₁] at hc
  injection hc with hresult happ
  rw [← hresult, ← happ]
  exact ⟨⟨hh₁.hasher, hh₁.starknetState⟩, rfl, hc₁, rfl⟩

theorem deliverBlocks_ok (hL : L.StateLaws) {blocks : List (List Bytes)}
    {results : List (List ResponseDeliverTx × ResponseCommit)} {app app' : StarknetApp S}
    {height : Int64} (hh : app.Healthy) (ha : app.AtHeight height)
    (h : (deliverBlocks L blocks).run app = .ok results app') :
    app'.Healthy ∧ app'.chain L = (app.chain L).deliverAll L blocks.flatten ∧
      results.map (fun result => result.2.data) = appHashes L (app.chain L) blocks := by
  induction blocks generalizing app height results with
  | nil =>
    cases run_mapM_nil.symm.trans h
    exact ⟨hh, rfl, rfl⟩
  | cons txs blocks ih =>
    obtain ⟨result, results', app₁, htxs, hblocks, rfl⟩ := run_mapM_cons.mp h
    obtain ⟨hh₁, hf₁, hc₁, hd⟩ := deliverBlock_ok hL hh ha htxs
    obtain ⟨hh', hc', hds⟩ := ih hh₁ ⟨_, hf₁, HeightFile.decode_encode _⟩ hblocks
    refine ⟨hh', ?_, ?_⟩
    · rw [hc', hc₁, List.flatten_cons, Chain.deliverAll_append]
    · rw [List.map_cons, hd, hds, hc₁, appHashes]

theorem deliverBlocks_heightFile (hL : L.StateLaws) {blocks : List (List Bytes)}
    {results : List (List ResponseDeliverTx × ResponseCommit)} {app app' : StarknetApp S}
    {height : Int64} (hh : app.Healthy) (hf : app.heightFile = some (HeightFile.encode height))
    (h : (deliverBlocks L blocks).run app = .ok results app') :
    app'.heightFile = some (HeightFile.encode (height + Int64.ofNat blocks.length)) := by
  induction blocks generalizing app height results with
  | nil =>
    cases run_mapM_nil.symm.trans h
    simpa using hf
  | cons txs blocks ih =>
    obtain ⟨result, results', app₁, htxs, hblocks, -⟩ := run_mapM_cons.mp h
    obtain ⟨hh₁, hf₁, -, -⟩ := deliverBlock_ok hL hh ⟨_, hf, HeightFile.decode_encode _⟩ htxs
    have hadd : height + 1 + Int64.ofNat blocks.length =
        height + Int64.ofNat (txs :: blocks).length := by
      rw [List.length_cons, Int64.ofNat_add, Int64.add_assoc, Int64.add_comm 1]
      rfl
    rw [← hadd]
    exact ih hh₁ hf₁ hblocks

theorem appHashes_getLast? (chain : Chain C) {blocks : List (List Bytes)} (h : blocks ≠ []) :
    (appHashes L chain blocks).getLast? =
      some (L.sha256 (chain.deliverAll L blocks.flatten).stream) := by
  induction blocks generalizing chain with
  | nil => exact absurd rfl h
  | cons txs blocks ih =>
    rw [appHashes, List.flatten_cons, Chain.deliverAll_append]
    cases blocks with
    | nil => rfl
    | cons txs' blocks =>
      have hrest := ih (chain.deliverAll L txs) (List.cons_ne_nil _ _)
      rw [List.getLast?_cons, hrest, Option.getD_some]

theorem deliverTxs_delivers (hL : L.StateLaws) {txs : List Bytes} {rs : List ResponseDeliverTx}
    {app app' : StarknetApp S} (hh : app.Healthy)
    (h : (deliverTxs L txs).run app = .ok rs app') :
    ∀ request ∈ txs, ∀ tx, passed L request = some tx →
      ∃ s t, Delivers L tx.transactionType s t := by
  induction txs generalizing app rs with
  | nil => simp
  | cons request txs ih =>
    obtain ⟨r, rs', app₁, htx, htxs, -⟩ := run_mapM_cons.mp h
    have hrest := ih (deliverTx_ok hL hh htx).1 htxs
    rw [List.forall_mem_cons]
    refine ⟨fun tx hp => ?_, hrest⟩
    have hs : (app.hashed tx).starknetState.poisoned = false := hh.starknetState
    rw [run_deliverTx_passed hp hh.hasher] at htx
    split at htx
    · rename_i app₂ hd
      obtain ⟨t, hD, -⟩ := (deliver_iff hp hs).mp hd
      exact ⟨_, t, hD⟩
    · cases htx

theorem deliverBlocks_delivers (hL : L.StateLaws) {blocks : List (List Bytes)}
    {results : List (List ResponseDeliverTx × ResponseCommit)} {app app' : StarknetApp S}
    {height : Int64} (hh : app.Healthy) (ha : app.AtHeight height)
    (h : (deliverBlocks L blocks).run app = .ok results app') :
    ∀ request ∈ blocks.flatten, ∀ tx, passed L request = some tx →
      ∃ s t, Delivers L tx.transactionType s t := by
  induction blocks generalizing app height results with
  | nil => simp
  | cons txs blocks ih =>
    obtain ⟨result, results', app₁, htxs, hblocks, -⟩ := run_mapM_cons.mp h
    obtain ⟨hh₁, hf₁, -, -⟩ := deliverBlock_ok hL hh ha htxs
    obtain ⟨app₂, hd, -⟩ := run_deliverBlock_ok.mp htxs
    have hh₀ : StarknetApp.Healthy { app with transactions := 0 } := ⟨hh.hasher, hh.starknetState⟩
    have hfirst := deliverTxs_delivers hL hh₀ hd
    have hrest := ih hh₁ ⟨_, hf₁, HeightFile.decode_encode _⟩ hblocks
    intro request hr
    rw [List.flatten_cons] at hr
    rcases List.mem_append.mp hr with hr | hr
    · exact hfirst request hr
    · exact hrest request hr

theorem deliverBlock_counted (txs : List Bytes) (app : StarknetApp S) (n : Nat) :
    (deliverBlock L txs).run { app with transactions := n } = (deliverBlock L txs).run app := rfl

theorem deliverTxs_not_passed {txs : List Bytes} {rs : List ResponseDeliverTx}
    {app app' : StarknetApp S} (hp : ∀ tx ∈ txs, passed L tx = none)
    (h : (deliverTxs L txs).run app = .ok rs app') :
    app' = { app with transactions := app.transactions + txs.length } := by
  induction txs generalizing app rs with
  | nil =>
    cases run_mapM_nil.symm.trans h
    rfl
  | cons tx txs ih =>
    obtain ⟨r, rs', app₁, htx, htxs, -⟩ := run_mapM_cons.mp h
    obtain ⟨rfl, -⟩ := deliverTx_not_passed (hp tx (List.mem_cons_self ..)) htx
    have hrest := ih (fun tx htx => hp tx (List.mem_cons_of_mem _ htx)) htxs
    rw [hrest, counted, StarknetApp.mk.injEq]
    exact ⟨rfl, rfl, by simp only [List.length_cons]; omega, rfl⟩

theorem deliverTxs_hasher {txs : List Bytes} {rs : List ResponseDeliverTx}
    {app app' : StarknetApp S} (h : (deliverTxs L txs).run app = .ok rs app')
    (hh : app.hasher.poisoned = false) :
    app'.heightFile = app.heightFile ∧
      app'.hasher = ⟨app.hasher.data ++ (txs.map (streamOf L)).flatten, false⟩ := by
  induction txs generalizing app rs with
  | nil =>
    cases run_mapM_nil.symm.trans h
    rw [List.map_nil, List.flatten_nil, List.append_nil, ← hh]
    exact ⟨rfl, rfl⟩
  | cons tx txs ih =>
    obtain ⟨r, rs', app₁, htx, htxs, -⟩ := run_mapM_cons.mp h
    obtain ⟨hf₁, hs₁⟩ := final_deliverTx (L := L) tx hh
    rw [htx, final_ok] at hf₁ hs₁
    obtain ⟨hf', hs'⟩ := ih htxs (by rw [hs₁])
    refine ⟨hf'.trans hf₁, ?_⟩
    rw [hs', hs₁, List.map_cons, List.flatten_cons, List.append_assoc]

theorem transactionHash_ne {request : Bytes} {tx : Transaction}
    (h : passed L request = some tx) : utf8 tx.transactionHash ≠ [] := by
  have hne : tx.transactionHash ≠ "" := by
    obtain ⟨-, hc⟩ := passed_iff.mp h
    cases ht : tx.transactionType with
    | declare program =>
      rw [ht] at hc
      obtain ⟨felt, c, -, hhash⟩ := computeAndHash_declare.mp hc
      rw [hhash, hashOf]
      simp
    | deployAccount classHash salt inputs =>
      rw [ht] at hc
      obtain ⟨address, -, hhash⟩ := computeAndHash_deployAccount.mp hc
      rw [hhash, hashOf]
      simp
    | invoke address function inputs =>
      rw [ht] at hc
      rw [← Except.ok.inj (Except.ok.inj hc)]
      simp
  exact fun hnil => hne (utf8_inj hnil)

theorem streamOf_eq_nil {request : Bytes} : streamOf L request = [] ↔ passed L request = none := by
  constructor
  · intro h
    cases hp : passed L request with
    | none => rfl
    | some tx =>
      rw [streamOf_passed hp] at h
      exact absurd h (transactionHash_ne hp)
  · exact streamOf_not_passed

theorem streams_eq_nil {txs : List Bytes} :
    (txs.map (streamOf L)).flatten = [] ↔ ∀ tx ∈ txs, passed L tx = none := by
  rw [List.flatten_eq_nil_iff]
  simp only [List.mem_map, forall_exists_index, and_imp, forall_apply_eq_imp_iff₂,
    streamOf_eq_nil]

theorem deliverBlock_hasher {txs : List Bytes}
    {result : List ResponseDeliverTx × ResponseCommit} {app app' : StarknetApp S}
    {height : Int64} (hh : app.hasher.poisoned = false) (ha : app.AtHeight height)
    (h : (deliverBlock L txs).run app = .ok result app') :
    app'.hasher = ⟨app.hasher.data ++ (txs.map (streamOf L)).flatten, false⟩ := by
  obtain ⟨app₁, hd, hc⟩ := run_deliverBlock_ok.mp h
  obtain ⟨hf₁, hs₁⟩ := deliverTxs_hasher hd hh
  have ha₁ : app₁.AtHeight height := ha.imp fun bytes hb => ⟨hf₁.trans hb.1, hb.2⟩
  rw [run_commit (by rw [hs₁]) ha₁] at hc
  injection hc with _ hc
  rw [← hc]
  exact hs₁

theorem deliverBlock_not_passed {txs : List Bytes}
    {result : List ResponseDeliverTx × ResponseCommit} {app app' : StarknetApp S}
    {height : Int64} (hh : app.hasher.poisoned = false) (ha : app.AtHeight height)
    (hp : ∀ tx ∈ txs, passed L tx = none)
    (h : (deliverBlock L txs).run app = .ok result app') :
    app'.hasher = app.hasher ∧ app'.starknetState = app.starknetState ∧
      app'.heightFile = some (HeightFile.encode (height + 1)) := by
  obtain ⟨app₁, hd, hc⟩ := run_deliverBlock_ok.mp h
  have happ := deliverTxs_not_passed hp hd
  have hh₁ : app₁.hasher.poisoned = false := by rw [happ]; exact hh
  have ha₁ : app₁.AtHeight height := by rw [happ]; exact ha
  rw [run_commit hh₁ ha₁] at hc
  injection hc with _ hc
  rw [← hc, happ]
  exact ⟨rfl, rfl, rfl⟩

theorem deliverBlocks_not_passed {blocks : List (List Bytes)}
    {results : List (List ResponseDeliverTx × ResponseCommit)} {app app' : StarknetApp S}
    {height : Int64} (hh : app.hasher.poisoned = false) (ha : app.AtHeight height)
    (hp : ∀ tx ∈ blocks.flatten, passed L tx = none)
    (h : (deliverBlocks L blocks).run app = .ok results app') :
    app'.hasher = app.hasher ∧ app'.starknetState = app.starknetState := by
  induction blocks generalizing app height results with
  | nil =>
    cases run_mapM_nil.symm.trans h
    exact ⟨rfl, rfl⟩
  | cons txs blocks ih =>
    obtain ⟨result, results', app₁, htxs, hblocks, -⟩ := run_mapM_cons.mp h
    rw [List.flatten_cons] at hp
    obtain ⟨hs₁, hst₁, hf₁⟩ := deliverBlock_not_passed hh ha
      (fun tx htx => hp tx (List.mem_append_left _ htx)) htxs
    have hh₁ : app₁.hasher.poisoned = false := by rw [hs₁]; exact hh
    obtain ⟨hs', hst'⟩ := ih hh₁ ⟨_, hf₁, HeightFile.decode_encode _⟩
      (fun tx htx => hp tx (List.mem_append_right _ htx)) hblocks
    exact ⟨hs'.trans hs₁, hst'.trans hst₁⟩

end Sequencer
