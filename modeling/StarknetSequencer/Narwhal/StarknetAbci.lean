import StarknetSequencer.Narwhal.Abci
import StarknetSequencer.Wire.Hex

namespace Narwhal.StarknetAbci

open Wire Effect
open Sequencer (Panic EventAttribute ResponseInfo ResponseDeliverTx ResponseCommit)

inductive TransactionType where
  | declare
  | deploy
  | invoke
  | functionExecution (function programName : String)
deriving DecidableEq

structure Transaction where
  id : String
  transactionHash : String
  transactionType : TransactionType
deriving DecidableEq

-- what the app calls outside its crate: the JSON reader, the entry point run of the bundled
-- program on a fresh state, SHA-256, and the error its client gets when a handler panics
structure Runtime where
  fromSlice : Bytes → Option Transaction
  execute : String → Bool
  sha256 : Bytes → Bytes
  terminated : String

structure State where
  blockHeight : Int64
  appHash : Bytes
deriving DecidableEq

structure Consensus where
  committedState : Mutex State
  currentState : Mutex State
  hasher : Mutex Bytes
deriving DecidableEq

structure Info where
  state : Mutex State
deriving DecidableEq

structure App where
  consensus : Consensus
  info : Info
  transactions : Nat
deriving DecidableEq

abbrev Hook (α : Type) := EStateM Panic App α

def Consensus.new (state : State) : Consensus where
  committedState := Mutex.new state
  currentState := Mutex.new state
  hasher := Mutex.new []

def App.new : App :=
  let state : State := { blockHeight := 0, appHash := [] }
  { consensus := Consensus.new state
    info := { state := Mutex.new state }
    transactions := 0 }

variable (runtime : Runtime)

def notYetImplemented : Panic := .expect "not yet implemented"

def TransactionType.computeAndHash : TransactionType → Except Panic (Except String String)
  | .functionExecution function _ =>
    if runtime.execute function then .ok (.ok (hexEncode (runtime.sha256 (utf8 function))))
    else .error (.expect "Could not execute contract")
  | .declare => .error notYetImplemented
  | .deploy => .error notYetImplemented
  | .invoke => .error notYetImplemented

namespace Consensus

def initChain : Hook Unit := return

def beginBlock (_height : Int64) : Hook Unit :=
  modify fun app => { app with transactions := 0 }

def withHasher {α : Type} (m : EStateM Panic Bytes α) : Hook (Option α) :=
  zoom (fun app => app.consensus.hasher)
    (fun app hasher => { app with consensus := { app.consensus with hasher } }) (Mutex.lockMap m)

def rejected (message : String) : ResponseDeliverTx where
  code := 1
  data := []
  log := message
  info := message
  events := []

def deliverTx (request : Bytes) : Hook ResponseDeliverTx := do
  let tx ← orThrow .unwrap (runtime.fromSlice request)
  let txHash ← lift (tx.transactionType.computeAndHash runtime)
  modify fun app => { app with transactions := app.transactions + 1 }
  match txHash.map (· == tx.transactionHash) with
  | .ok true =>
    let _ ← withHasher (modify fun stream => stream ++ utf8 tx.transactionHash)
    let indexEvent : Sequencer.Event := ⟨"app", [⟨"tx_id", tx.transactionHash, true⟩]⟩
    match tx.transactionType with
    | .functionExecution function _ =>
      let functionEvent : Sequencer.Event := ⟨"function", [⟨"function", function, true⟩]⟩
      return {
        code := 0
        data := utf8 tx.transactionHash
        log := ""
        info := ""
        events := [indexEvent, functionEvent] }
    | .declare => throw notYetImplemented
    | .deploy => throw notYetImplemented
    | .invoke => throw notYetImplemented
  | .ok false => return rejected "Error delivering transaction. Integrity check failed."
  | .error e => return rejected ("Error delivering transaction: " ++ e)

def endBlock (_height : Int64) : Hook Unit := return

def commit : Hook ResponseCommit := do
  let appHash : Except String Bytes := .ok []
  match appHash with
  | .ok hash => return { data := hash, retainHeight := 0 }
  | .error _ => return { data := [], retainHeight := 0 }

end Consensus

namespace Info

def query (request : RequestQuery) : Hook ResponseQuery := return {
  code := 0
  log := ""
  info := ""
  index := 0
  key := request.data
  value := []
  height := 0
  codespace := "" }

def info : Hook ResponseInfo := return {
  data := "cairo-app"
  version := "0.1.0"
  appVersion := 1
  lastBlockHeight := 0
  lastBlockAppHash := [] }

end Info

def answer {α : Type} (m : Hook α) : EStateM String App α :=
  EStateM.adaptExcept (fun _ => runtime.terminated) m

def call : BlockCall → Hook Unit
  | .initChain => Consensus.initChain
  | .beginBlock height => Consensus.beginBlock height
  | .deliverTx tx => do let _ ← Consensus.deliverTx runtime tx
  | .endBlock height => Consensus.endBlock height
  | .commit => do let _ ← Consensus.commit

def server : AbciApp App where
  connect := return
  info := answer runtime Info.info
  query request := answer runtime (Info.query request)
  call blockCall := answer runtime (call runtime blockCall)

end Narwhal.StarknetAbci
