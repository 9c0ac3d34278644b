import StarknetSequencer.Effect.Mutex
import StarknetSequencer.Sequencer.HeightFile

namespace Sequencer

open Wire Effect

structure EventAttribute where
  key : String
  value : String
  index : Bool
deriving DecidableEq

structure Event where
  type : String
  attributes : List EventAttribute
deriving DecidableEq

structure ResponseInfo where
  data : String
  version : String
  appVersion : Nat
  lastBlockHeight : Int64
  lastBlockAppHash : Bytes
deriving DecidableEq

structure ResponseQuery where
  code : Nat
  log : String
  info : String
deriving DecidableEq

structure ResponseCheckTx where
  code : Nat
deriving DecidableEq

structure ResponseDeliverTx where
  code : Nat
  data : Bytes
  log : String
  info : String
  events : List Event
deriving DecidableEq

structure ResponseCommit where
  data : Bytes
  retainHeight : Int64
deriving DecidableEq

inductive ProposalStatus where
  | unknown
  | accept
  | reject
deriving DecidableEq

-- one running process: the two locks of `StarknetApp`, the `TRANSACTIONS` static of its module
-- and the height file next to it, `none` when there is none
structure StarknetApp (S : Type) where
  hasher : Mutex Bytes
  starknetState : Mutex S
  transactions : Nat
  heightFile : Option Bytes
deriving DecidableEq

abbrev Hook (S α : Type) := EStateM Panic (StarknetApp S) α

variable {C S I : Type} (L : Starknet C S I)

namespace StarknetApp

def withHasher {α : Type} (m : EStateM Panic Bytes α) : Hook S (Option α) :=
  zoom hasher (fun app hasher => { app with hasher }) (Mutex.lockMap m)

def withState {α : Type} (m : EStateM Panic S α) : Hook S (Option α) :=
  zoom starknetState (fun app starknetState => { app with starknetState }) (Mutex.lockMap m)

def withHeightFile {α : Type} (m : EStateM Panic (Option Bytes) α) : Hook S α :=
  zoom heightFile (fun app heightFile => { app with heightFile }) m

def new (heightFile : Option Bytes) : Except Panic (StarknetApp S) :=
  match HeightFile.readOrCreate.run heightFile with
  | .ok _ heightFile => .ok
    { hasher := Mutex.new []
      starknetState := Mutex.new L.newState
      transactions := 0
      heightFile }
  | .error panic _ => .error panic

def info : Hook S ResponseInfo := do
  let lastBlockHeight ← withHeightFile HeightFile.readOrCreate
  return {
    data := "cairo-app"
    version := "0.1.0"
    appVersion := 1
    lastBlockHeight
    lastBlockAppHash := [] }

def query : Hook S ResponseQuery :=
  return {
    code := 1
    log := "Error running query: Query hook needs implementation"
    info := "Error running query: Query hook needs implementation" }

def checkTx (request : Bytes) : Hook S ResponseCheckTx := do
  let _ ← orThrow .unwrap (transactionCodec.deserialize request)
  return { code := 0 }

def beginBlock : Hook S Unit :=
  modify fun app => { app with transactions := 0 }

def deliverDeclare (program : String) : Hook S Unit := do
  let contractClass ← orThrow (.expect "Could not load contract from payload")
    (L.contractClassTryFrom program).toOption
  let contractHashFelt ← lift (unwrap (L.computeClassHash contractClass))
  let contractHash := L.feltToHash contractHashFelt
  let done ← withState <|
    EStateM.adaptExcept (fun _ => .unwrap) (L.setContractClass contractHash contractClass)
  orThrow .unwrap done

def deliverDeployAccount (classHash : String) (salt : Int32) (inputs : Option (List Int32)) :
    Hook S Unit := do
  let constructorCalldata := calldata L inputs
  let tail ← lift (sliceFrom 2 classHash)
  let felt ← lift (unwrap (L.fromStrRadix16 tail))
  let address ← lift <| unwrap <|
    L.calculateContractAddress (L.fromI32 salt) felt constructorCalldata 0
  let _ ← withState (do
    let hash ← orThrow .unwrap (L.stringToHash classHash)
    attempt (L.deployContract address hash))
  let _ ← lift (unwrap (L.calculateDeployTransactionHash 0 address constructorCalldata 0))
  return ()

def entryPoint (contractAddress : Felt252) (function : String) (inputs : Option (List Int32))
    (classHash : ClassHash) : ExecutionEntryPoint where
  contractAddress
  calldata := calldata L inputs
  entryPointSelector := L.fromBytesBe (L.calculateSnKeccak (utf8 function))
  callerAddress := 0
  entryPointType := .external
  callType := some .delegate
  classHash := some classHash

def executionContext : TransactionExecutionContext where
  accountContractAddress := 0
  maxFee := 10
  nonce := 0
  nSteps := L.invokeTxMaxNSteps
  version := 1

def executeInvoke (contractAddress : Felt252) (function : String)
    (inputs : Option (List Int32)) : EStateM Panic S (Except String I) := do
  let classHash ←
    EStateM.adaptExcept (fun _ => Panic.unwrap) (L.getClassHashAt contractAddress)
  match ← attempt (L.getContractClass classHash) with
  | .error _ =>
    return .error "No contract class found for contract address (Contract not deployed)"
  | .ok _ =>
    -- `execute` is given a clone of the state, which is dropped with what it wrote
    let clone ← get
    let result := value <|
      (L.execute (entryPoint L contractAddress function inputs classHash)
        (executionContext L)).run clone
    return result.mapError fun _ => "Error running Invoke Tx"

def runInvokeTx (address function : String) (inputs : Option (List Int32)) :
    Hook S (Except String I) := do
  let tail ← lift (sliceFrom 2 address)
  match L.fromStrRadix16 tail with
  | .error _ => return .error ("Could not parse address: " ++ address)
  | .ok contractAddress =>
    let result ← withState (executeInvoke L contractAddress function inputs)
    orThrow .unwrap result

def deliver : TransactionType → Hook S Unit
  | .declare program => deliverDeclare L program
  | .deployAccount classHash salt inputs => deliverDeployAccount L classHash salt inputs
  | .invoke address function inputs => do
    let _ ← runInvokeTx L address function inputs
    return ()

def accepted (tx : Transaction) : ResponseDeliverTx where
  code := 0
  data := utf8 tx.transactionHash
  log := ""
  info := ""
  events := [⟨"app", [⟨"tx_id", tx.transactionHash, true⟩]⟩]

def rejected (message : String) : ResponseDeliverTx where
  code := 1
  data := []
  log := message
  info := message
  events := []

def deliverTx (request : Bytes) : Hook S ResponseDeliverTx := do
  let tx ← orThrow .unwrap (transactionCodec.deserialize request)
  let txHash ← lift (tx.transactionType.computeAndHash L)
  modify fun app => { app with transactions := app.transactions + 1 }
  match txHash.map (· == tx.transactionHash) with
  | .ok true =>
    let _ ← withHasher (modify fun stream => stream ++ utf8 tx.transactionHash)
    deliver L tx.transactionType
    return accepted tx
  | .ok false => return rejected "Error delivering transaction. Integrity check failed."
  | .error e => return rejected ("Error delivering transaction: " ++ e)

def endBlock : Hook S Unit := return ()

def commit : Hook S ResponseCommit := do
  let appHash ← withHasher (return L.sha256 (← get))
  let _ ← withHeightFile HeightFile.increment
  match appHash with
  | some hash => return { data := hash, retainHeight := 0 }
  | none => return { data := [], retainHeight := 0 }

-- `popped` is the vector from its last element on, which `pop` takes first
def popWhile (maxTxBytes : Nat) : Nat → List Bytes → List Bytes
  | _, [] => []
  | total, tx :: popped =>
    if total > maxTxBytes then popWhile maxTxBytes (total - tx.length) popped
    else tx :: popped

def usizeMax : Nat := 2 ^ 64 - 1

def prepareProposal (txs : List Bytes) (maxTxBytes : Int64) : Hook S (List Bytes) :=
  let limit := maxTxBytes.toInt.toNat
  let total := (txs.map List.length).foldl (fun acc len => min (acc + len) usizeMax) 0
  return (popWhile limit total txs.reverse).reverse

def processProposal : Hook S ProposalStatus := return .accept

end StarknetApp

inductive Request where
  | initChain
  | info
  | query
  | checkTx (tx : Bytes)
  | beginBlock
  | deliverTx (tx : Bytes)
  | endBlock
  | commit
  | prepareProposal (txs : List Bytes) (maxTxBytes : Int64)
  | processProposal

inductive Response where
  | initChain
  | info (response : ResponseInfo)
  | query (response : ResponseQuery)
  | checkTx (response : ResponseCheckTx)
  | beginBlock
  | deliverTx (response : ResponseDeliverTx)
  | endBlock
  | commit (response : ResponseCommit)
  | prepareProposal (txs : List Bytes)
  | processProposal (status : ProposalStatus)

open StarknetApp in
def Request.handle : Request → Hook S Response
  | .initChain => return .initChain
  | .info => .info <$> StarknetApp.info
  | .query => .query <$> StarknetApp.query
  | .checkTx tx => .checkTx <$> StarknetApp.checkTx tx
  | .beginBlock => do StarknetApp.beginBlock; return .beginBlock
  | .deliverTx tx => .deliverTx <$> StarknetApp.deliverTx L tx
  | .endBlock => do StarknetApp.endBlock; return .endBlock
  | .commit => .commit <$> StarknetApp.commit L
  | .prepareProposal txs maxTxBytes =>
    .prepareProposal <$> StarknetApp.prepareProposal txs maxTxBytes
  | .processProposal => .processProposal <$> StarknetApp.processProposal

end Sequencer
