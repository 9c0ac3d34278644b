import StarknetSequencer.Sequencer.Delivery

namespace Sequencer.Cli

open Wire Effect

structure DeclareArgs where
  contract : String

structure DeployArgs where
  classHash : String
  salt : Int32
  inputs : Option (List Int32)

structure InvokeArgs where
  address : String
  function : String
  inputs : Option (List Int32)

structure GetArgs where
  transactionId : String

inductive Command where
  | declare (args : DeclareArgs)
  | deployAccount (args : DeployArgs)
  | invoke (args : InvokeArgs)
  | get (args : GetArgs)

inductive Code where
  | ok
  | err (code : UInt32)

structure ResponseBroadcast where
  code : Code
  log : String

structure Committed where
  tx : Bytes
  result : ResponseDeliverTx
deriving DecidableEq

-- the node at the other end of an `HttpClient`: its mempool and the transactions it has committed,
-- in block order, each with what `deliver_tx` answered
structure Node where
  broadcastTxSync : Bytes → Except String ResponseBroadcast
  history : List Committed

structure TxSearch where
  totalCount : Nat
  txs : List Bytes

def indexed (key : String) (result : ResponseDeliverTx) : List String :=
  result.events.flatMap fun event =>
    (event.attributes.filter fun a => a.index && event.type ++ "." ++ a.key == key).map
      EventAttribute.value

def contains (value x : String) : Bool := decide (x.toList <:+: value.toList)

def Committed.mentions (key x : String) (committed : Committed) : Bool :=
  (indexed key committed.result).any (contains · x)

-- the first page of `Query::contains`, one transaction a page, ascending
def Node.txSearch (node : Node) (key x : String) : TxSearch :=
  let found := node.history.filter (Committed.mentions key x)
  { totalCount := found.length
    txs := (found.take 1).map Committed.tx }

-- `fs::read_to_string`, `HttpClient::new` and the text of a `bincode` error
structure Host where
  readToString : String → Except String String
  httpClient : String → Except String Node
  bincodeError : Bytes → String

variable {C S I : Type} (L : Starknet C S I) (host : Host)

def broadcast (transaction : Bytes) (url : String) : Except Panic (Except String Unit) := do
  let client ← unwrap (host.httpClient url)
  return do
    let response ← client.broadcastTxSync transaction
    match response.code with
    | .ok => return ()
    | .err code =>
      throw ("Error executing transaction " ++ toString code ++ ": " ++ response.log)

-- what `do_declare`, `do_deploy` and `do_invoke` have in common from `with_type` on
def send (failed : String) (transactionType : TransactionType) (uuid url : String) :
    Except Panic (Except String Transaction) := do
  match ← Transaction.withType L transactionType uuid with
  | .error e => return .error e
  | .ok transaction =>
    match ← broadcast host (transactionCodec.encode transaction) url with
    | .ok _ => return .ok transaction
    | .error e => return .error (failed ++ e)

def doDeclare (args : DeclareArgs) (uuid url : String) :
    Except Panic (Except String Transaction) :=
  match host.readToString args.contract with
  | .error e => .ok (.error e)
  | .ok program =>
    send L host "DECLARE: Error ocurred when sending out transaction: " (.declare program) uuid url

def doDeploy (args : DeployArgs) (uuid url : String) : Except Panic (Except String Transaction) :=
  send L host "DEPLOY: Error sending out transaction: "
    (.deployAccount args.classHash args.salt args.inputs) uuid url

def doInvoke (args : InvokeArgs) (uuid url : String) : Except Panic (Except String Transaction) :=
  send L host "INVOKE: Error sending out transaction: "
    (.invoke args.address args.function args.inputs) uuid url

def fetch (client : Node) (txId : String) : Except Panic (Except String Transaction) :=
  let response := client.txSearch "app.tx_id" txId
  if response.totalCount > 0 then
    match response.txs with
    | [] => .error .unwrap
    | txBytes :: _ =>
      match transactionCodec.deserialize txBytes with
      | some transaction => .ok (.ok transaction)
      | none => .ok (.error (host.bincodeError txBytes))
  else .ok (.error ("Transaction ID " ++ txId ++
    " is invalid or has not yet been committed to the blockchain"))

def getTransaction (txId url : String) : Except Panic (Except String Transaction) :=
  match host.httpClient url with
  | .error e => .ok (.error e)
  | .ok client => fetch host client txId

def run (command : Command) (uuid url : String) : Except Panic (Except String Transaction) :=
  match command with
  | .declare args => doDeclare L host args uuid url
  | .deployAccount args => doDeploy L host args uuid url
  | .invoke args => doInvoke L host args uuid url
  | .get args => getTransaction host args.transactionId url

inductive Output where
  | transaction (id hash : String)
  | error (message : String)
deriving DecidableEq

def report : Except String Transaction → Nat × Output
  | .ok output => (0, .transaction output.id output.transactionHash)
  | .error message => (1, .error message)

end Sequencer.Cli
