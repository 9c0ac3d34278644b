import StarknetSequencer.Sequencer.AppHash
import StarknetSequencer.Sequencer.Cli

namespace Sequencer

open Wire Effect StarknetApp Cli

variable {C S I : Type} (L : Starknet C S I)

-- each transaction of a history was delivered by an app in some state, whatever came between them
def History (history : List Committed) : Prop :=
  ∀ committed ∈ history, ∃ app app' : StarknetApp S,
    (deliverTx L committed.tx).run app = .ok committed.result app'

def acceptedTx (committed : Committed) : Option Transaction :=
  if committed.result.code = 0 then transactionCodec.deserialize committed.tx else none

def acceptedTxs (history : List Committed) : List Transaction :=
  history.filterMap acceptedTx

structure Fetchable (host : Host) (url : String) (history : List Committed) : Prop where
  by_id : ∀ tx ∈ acceptedTxs history, getTransaction host tx.id url = .ok (.ok tx)
  exact : ∀ x tx, getTransaction host x url = .ok (.ok tx) → x = tx.id ∨ x = tx.transactionHash

-- `tx` is accepted and is the first accepted transaction whose hash contains `x`
def FirstToMention (history : List Committed) (x : String) (tx : Transaction) : Prop :=
  contains tx.transactionHash x ∧ ∃ before after, acceptedTxs history = before ++ tx :: after ∧
    ∀ other ∈ before, ¬ contains other.transactionHash x

def committedOf (blocks : List (List Bytes)) (answers : List (List ResponseDeliverTx)) :
    List Committed :=
  List.zipWith Committed.mk blocks.flatten answers.flatten

variable {L}

theorem contains_nil (value : String) : contains value "" = true :=
  decide_eq_true (List.nil_infix ..)

theorem acceptedTx_spec {committed : Committed} {app app' : StarknetApp S}
    (h : (deliverTx L committed.tx).run app = .ok committed.result app') (x : String) :
    committed.mentions "app.tx_id" x =
      (acceptedTx committed).any fun tx => contains tx.transactionHash x := by
  obtain ⟨tx, result⟩ := committed
  obtain ⟨answered, hc, rfl⟩ := deliverTx_answer h
  cases answered with
  | error message => rfl
  | ok transaction =>
    have hd := (passed_iff.mp (passed_eq_some.mpr hc)).1
    have haccepted : acceptedTx ⟨tx, answer (.ok transaction)⟩ = some transaction := hd
    rw [haccepted]
    simp [Committed.mentions, indexed, answer, accepted]

theorem passed_of_accepted {history : List Committed} (hh : History L history) {tx : Transaction}
    (h : tx ∈ acceptedTxs history) : ∃ request, passed L request = some tx := by
  obtain ⟨committed, hmem, hc⟩ := List.mem_filterMap.mp h
  obtain ⟨app, app', hrun⟩ := hh committed hmem
  rw [acceptedTx] at hc
  split at hc
  · rename_i hcode
    obtain ⟨tx', hp, -⟩ := (deliverTx_code_zero hrun).mp hcode
    cases hc.symm.trans (passed_iff.mp hp).1
    exact ⟨_, hp⟩
  · cases hc

theorem find_accepted {history : List Committed} (hh : History L history) (x : String) :
    (acceptedTxs history).find? (fun tx => contains tx.transactionHash x) =
      (history.find? (Committed.mentions "app.tx_id" x)).bind acceptedTx := by
  have hsame : history.find? (Committed.mentions "app.tx_id" x) = history.find? fun committed =>
      (acceptedTx committed).any fun tx => contains tx.transactionHash x := by
    rw [← List.head?_filter, ← List.head?_filter]
    congr 1
    refine List.filter_congr fun committed hmem => ?_
    obtain ⟨app, app', hrun⟩ := hh committed hmem
    exact acceptedTx_spec hrun x
  rw [hsame, acceptedTxs, List.find?_filterMap]

theorem fetch_eq {history : List Committed} (hh : History L history) {host : Host} {node : Node}
    (hn : node.history = history) (x : String) :
    fetch host node x = match (acceptedTxs history).find? fun tx => contains tx.transactionHash x with
      | some tx => .ok (.ok tx)
      | none => .ok (.error ("Transaction ID " ++ x ++
        " is invalid or has not yet been committed to the blockchain")) := by
  rw [find_accepted hh, ← List.head?_filter]
  simp only [fetch, Node.txSearch, hn]
  cases hf : history.filter (Committed.mentions "app.tx_id" x) with
  | nil => rfl
  | cons committed rest =>
    have hmem : committed ∈ history.filter (Committed.mentions "app.tx_id" x) := by
      rw [hf]
      exact List.mem_cons_self
    obtain ⟨hin, hmentions⟩ := List.mem_filter.mp hmem
    obtain ⟨app, app', hrun⟩ := hh committed hin
    rw [acceptedTx_spec hrun x] at hmentions
    obtain ⟨tx, htx, -⟩ := (Option.any_eq_true ..).mp hmentions
    have hd : transactionCodec.deserialize committed.tx = some tx := by
      rw [acceptedTx] at htx
      split at htx
      · exact htx
      · cases htx
    simp [hd, htx]

theorem getTransaction_eq_ok {host : Host} {url : String} {node : Node}
    (hu : host.httpClient url = .ok node) (hh : History L node.history) {x : String}
    {tx : Transaction} :
    getTransaction host x url = .ok (.ok tx) ↔ FirstToMention node.history x tx := by
  have hfirst : FirstToMention node.history x tx ↔
      (acceptedTxs node.history).find? (fun tx => contains tx.transactionHash x) = some tx := by
    rw [List.find?_eq_some_iff_append]
    simp [FirstToMention]
  rw [hfirst, getTransaction, hu]
  simp only [fetch_eq hh]
  cases (acceptedTxs node.history).find? fun tx => contains tx.transactionHash x with
  | none => simp
  | some found => simp

theorem firstToMention_head {history : List Committed} {tx : Transaction} {rest : List Transaction}
    (h : acceptedTxs history = tx :: rest) {x : String} (hx : contains tx.transactionHash x) :
    FirstToMention history x tx :=
  ⟨hx, [], rest, h, fun _ hmem => (List.not_mem_nil hmem).elim⟩

-- a hash has two characters at least, so it is not each of its parts
theorem accepted_hash {tx : Transaction} (h : Accepted L tx) :
    ∃ c d cs, tx.transactionHash.toList = c :: d :: cs := by
  cases h with
  | declare hd => exact ⟨'0', 'x', _, hashOf_toList _⟩
  | deployAccount hd => exact ⟨'0', 'x', _, hashOf_toList _⟩
  | invoke hc =>
    obtain ⟨rest, hrest⟩ := invoke_hash hc
    exact ⟨'I', 'n', _, hrest.symm⟩

theorem fetchable_iff {host : Host} {url : String} {node : Node}
    (hu : host.httpClient url = .ok node) (hh : History L node.history) :
    Fetchable host url node.history ↔ acceptedTxs node.history = [] := by
  constructor
  · intro h
    by_contra hne
    obtain ⟨tx, rest, htxs⟩ := List.exists_cons_of_ne_nil hne
    have hmem : tx ∈ acceptedTxs node.history := by
      rw [htxs]
      exact List.mem_cons_self
    obtain ⟨request, hp⟩ := passed_of_accepted hh hmem
    obtain ⟨c, d, cs, hcs⟩ := accepted_hash (accepted_of_passed hp)
    have hnamed (x : String) (hx : contains tx.transactionHash x) :
        x = tx.id ∨ x = tx.transactionHash :=
      h.exact x tx ((getTransaction_eq_ok hu hh).mpr (firstToMention_head htxs hx))
    have hchar : contains tx.transactionHash (String.ofList [c]) = true := by
      refine decide_eq_true ?_
      rw [hcs, String.toList_ofList]
      exact ⟨[], d :: cs, rfl⟩
    have hempty : tx.id = "" := by
      rcases hnamed "" (contains_nil _) with hid | hhash
      · exact hid.symm
      · rw [← hhash] at hcs
        cases hcs
    rcases hnamed _ hchar with hid | hhash
    · rw [hempty] at hid
      have hnil := congrArg String.toList hid
      rw [String.toList_ofList] at hnil
      cases hnil
    · rw [← hhash, String.toList_ofList] at hcs
      cases hcs
  · intro hnil
    constructor
    · rw [hnil]
      exact fun _ hmem => (List.not_mem_nil hmem).elim
    · intro x tx h
      obtain ⟨-, before, after, heq, -⟩ := (getTransaction_eq_ok hu hh).mp h
      rw [hnil] at heq
      cases before <;> cases heq

theorem history_deliverTxs {txs : List Bytes} {rs : List ResponseDeliverTx}
    {app app' : StarknetApp S} (h : (deliverTxs L txs).run app = .ok rs app') :
    History L (List.zipWith Committed.mk txs rs) := by
  induction txs generalizing app rs with
  | nil => simp [History]
  | cons tx txs ih =>
    obtain ⟨r, rs', app₁, htx, htxs, rfl⟩ := run_mapM_cons.mp h
    rw [History, List.zipWith_cons_cons, List.forall_mem_cons]
    exact ⟨⟨app, app₁, htx⟩, ih htxs⟩

theorem history_deliverBlocks {blocks : List (List Bytes)}
    {answers : List (List ResponseDeliverTx × ResponseCommit)} {app app' : StarknetApp S}
    (h : (deliverBlocks L blocks).run app = .ok answers app') :
    History L (committedOf blocks (answers.map Prod.fst)) := by
  induction blocks generalizing app answers with
  | nil => simp [History, committedOf]
  | cons txs blocks ih =>
    obtain ⟨⟨rs, response⟩, answers', app₁, htxs, hblocks, rfl⟩ := run_mapM_cons.mp h
    obtain ⟨app₂, hd, -⟩ := run_deliverBlock_ok.mp htxs
    have hlen : rs.length = txs.length := length_of_run_mapM hd
    have hrest := ih hblocks
    rw [committedOf] at hrest ⊢
    rw [List.map_cons, List.flatten_cons, List.flatten_cons, List.zipWith_append hlen.symm]
    intro committed hmem
    rcases List.mem_append.mp hmem with hfirst | hlater
    · exact history_deliverTxs hd committed hfirst
    · exact hrest committed hlater

theorem lookup_finds_first_mention {host : Host} {url : String} {node : Node}
    (hu : host.httpClient url = .ok node) (hh : History L node.history) :
    (Fetchable host url node.history ↔ acceptedTxs node.history = []) ∧
    ∀ x tx, getTransaction host x url = .ok (.ok tx) ↔ FirstToMention node.history x tx :=
  ⟨fetchable_iff hu hh, fun _ _ => getTransaction_eq_ok hu hh⟩

namespace Reference

def publishedNode : Node where
  broadcastTxSync := fun _ => .ok ⟨.ok, ""⟩
  history := committedOf [[request published]] [[accepted published]]

def localhost : Host where
  readToString := Except.error
  httpClient := fun _ => .ok publishedNode
  bincodeError := fun _ => ""

theorem run_published : ∃ response app, (deliverBlocks starknet [[request published]]).run
    (fresh starknet) = .ok [([accepted published], response)] app := by
  have hd : (deliverTxs starknet [request published]).run (fresh starknet) = _ :=
    run_mapM_singleton.mpr ⟨_, run_declare passed_published rfl rfl rfl, rfl⟩
  exact ⟨_, _, run_oneBlock hd rfl rfl⟩

theorem publishedNode_history : History starknet publishedNode.history := by
  obtain ⟨response, app, h⟩ := run_published
  exact history_deliverBlocks h

theorem acceptedTxs_published : acceptedTxs publishedNode.history = [published] := by
  have hd : transactionCodec.deserialize (request published) = some published :=
    (passed_iff.mp passed_published).1
  simp [acceptedTxs, publishedNode, committedOf, acceptedTx, accepted, hd]

end Reference

theorem lookup_finds_first_mention_published :
    (Fetchable Reference.localhost "" Reference.publishedNode.history ↔
      acceptedTxs Reference.publishedNode.history = []) ∧
    ∀ x tx, getTransaction Reference.localhost x "" = .ok (.ok tx) ↔
      FirstToMention Reference.publishedNode.history x tx :=
  lookup_finds_first_mention rfl Reference.publishedNode_history

-- the id the CLI printed is not in the index, and "0x" is in every felt that is
theorem published_not_found_by_id :
    (∃ response app, (deliverBlocks Reference.starknet [[Reference.request Reference.published]]).run
      (fresh Reference.starknet) = .ok [([accepted Reference.published], response)] app) ∧
    Reference.publishedNode.history =
      committedOf [[Reference.request Reference.published]] [[accepted Reference.published]] ∧
    getTransaction Reference.localhost Reference.published.id "" = .ok (.error
      ("Transaction ID 67e55044-10b1-426f-9247-bb680e5fe0c8" ++
        " is invalid or has not yet been committed to the blockchain")) ∧
    getTransaction Reference.localhost "0x" "" = .ok (.ok Reference.published) ∧
    ¬ Fetchable Reference.localhost "" Reference.publishedNode.history := by
  have hh := Reference.publishedNode_history
  have hid : contains Reference.published.transactionHash Reference.published.id = false := by decide
  refine ⟨Reference.run_published, rfl, ?_, ?_, ?_⟩
  · change fetch Reference.localhost Reference.publishedNode Reference.published.id = _
    rw [fetch_eq hh rfl, Reference.acceptedTxs_published, List.find?_cons_of_neg (by simp [hid])]
    rfl
  · exact (getTransaction_eq_ok rfl hh).mpr
      (firstToMention_head Reference.acceptedTxs_published (by decide))
  · intro h
    have hnil := (fetchable_iff rfl hh).mp h
    rw [Reference.acceptedTxs_published] at hnil
    cases hnil

end Sequencer
