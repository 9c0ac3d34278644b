import StarknetSequencer.Effect.Loop
import StarknetSequencer.Narwhal.Abci
import StarknetSequencer.Narwhal.Store

namespace Narwhal

open Wire Effect

structure AbciQueryQuery where
  path : String
  data : String
  height : Option UInt64
  prove : Option Bool
deriving DecidableEq

-- one `(tx, req)` of `rx_abci_queries`; `listening` when the receiver of `tx` is still there
structure AbciQuery where
  listening : Bool
  req : AbciQueryQuery
deriving DecidableEq

inductive Event where
  | certificate (certificate : Certificate)
  | query (query : AbciQuery)

-- the messages `select!` takes from its two channels, in order, until both are closed
inductive Selects : List Certificate → List AbciQuery → List Event → Prop where
  | closed : Selects [] [] []
  | certificate {certificates queries events} (certificate : Certificate) :
    Selects certificates queries events →
      Selects (certificate :: certificates) queries (.certificate certificate :: events)
  | query {certificates queries events} (query : AbciQuery) :
    Selects certificates queries events →
      Selects certificates (query :: queries) (.query query :: events)

inductive EngineError where
  | unwrap (message : String)
  | client (message : String)
  | query (message : String)
  | undelivered (response : ResponseQuery)
  | rocksdb (message : String)
  | notFound (digest : Digest)
  | bail (message : String)
deriving DecidableEq

def EngineError.FromQuery : EngineError → Prop
  | .query _ => True
  | .undelivered _ => True
  | _ => False

structure Engine where
  storePath : String
  lastBlockHeight : Int64
deriving DecidableEq

structure Exchange where
  call : BlockCall
  answer : Except String Unit
deriving DecidableEq

-- the engine, the process it drives and the block calls it has sent so far
structure Session (σ : Type) where
  engine : Engine
  app : σ
  exchanges : List Exchange

abbrev EngineM (σ α : Type) := EStateM EngineError (Session σ) α

variable {σ : Type}

namespace Session

def sent (session : Session σ) : List BlockCall := session.exchanges.map Exchange.call

def withApp {α : Type} (m : EStateM String σ α) : EngineM σ (Except String α) :=
  attempt (zoom app (fun session app => { session with app }) m)

def exchange (app : AbciApp σ) (call : BlockCall) : EngineM σ (Except String Unit) := do
  let answer ← withApp (app.call call)
  modify fun session =>
    { session with exchanges := session.exchanges ++ [{ call, answer }] }
  return answer

end Session

open Session

variable (app : AbciApp σ) (stores : Stores)

namespace Engine

def workerDb (engine : Engine) (id : UInt32) : String :=
  engine.storePath ++ "-" ++ toString id

def reconstructBatch (engine : Engine) (digest : Digest) (workerId : UInt32) :
    Except EngineError Bytes := do
  let db ← (stores (engine.workerDb workerId)).mapError .rocksdb
  match db digest.toVec with
  | .ok (some res) => .ok res
  | .ok none => .error (.notFound digest)
  | .error err => .error (.rocksdb err)

def connect : EngineM σ (Except String Unit) := withApp app.connect

def new (storePath : String) : EngineM σ Engine := do
  lift ((← connect app).mapError .unwrap)
  let info ← withApp app.info
  let lastBlockHeight := match info with
    | .ok res => res.lastBlockHeight
    | .error _ => 0
  lift ((← connect app).mapError .unwrap)
  lift ((← connect app).mapError .unwrap)
  return { storePath, lastBlockHeight }

def alreadyInitialized (err : String) : Bool :=
  decide ("already initialized".toList <:+: err.toList)

def initChain : EngineM σ Unit := do
  lift ((← connect app).mapError .client)
  match ← exchange app .initChain with
  | .ok _ => return
  | .error err => if alreadyInitialized err then return else throw (.client err)

def call (blockCall : BlockCall) : EngineM σ Unit := do
  lift ((← exchange app blockCall).mapError .client)

def beginBlock (height : Int64) : EngineM σ Unit := call app (.beginBlock height)

def deliverTx (tx : Bytes) : EngineM σ Unit := call app (.deliverTx tx)

def endBlock (height : Int64) : EngineM σ Unit := call app (.endBlock height)

def commit : EngineM σ Unit := call app .commit

def deliverBatch (batch : Bytes) : EngineM σ Unit :=
  match WorkerMessage.codec.deserialize batch with
  | some (.batch txs) => forM txs (deliverTx app)
  | none => throw (.bail "unrecognized message format")

-- every batch is read from its store before the first of them is delivered
def reconstructAndDeliverTxs (certificate : Certificate) : EngineM σ Unit := do
  let engine := (← get).engine
  let batches := certificate.header.payload.entries.map fun (digest, workerId) =>
    engine.reconstructBatch stores digest workerId
  forM batches fun batch => do deliverBatch app (← lift batch)

def handleCert (certificate : Certificate) : EngineM σ Unit := do
  let proposedBlockHeight := (← get).engine.lastBlockHeight + 1
  modify fun session =>
    { session with engine := { session.engine with lastBlockHeight := proposedBlockHeight } }
  beginBlock app proposedBlockHeight
  reconstructAndDeliverTxs app stores certificate
  endBlock app proposedBlockHeight
  commit app

def requestQuery (req : AbciQueryQuery) : RequestQuery where
  data := utf8 req.data
  path := req.path
  height := (req.height.getD 0).toInt64
  prove := req.prove.getD false

def handleAbciQuery (query : AbciQuery) : EngineM σ Unit := do
  let resp ← lift ((← withApp (app.query (requestQuery query.req))).mapError .query)
  if query.listening then return else throw (.undelivered resp)

def handle : Event → EngineM σ Unit
  | .certificate certificate => handleCert app stores certificate
  | .query query => handleAbciQuery app query

def run (events : List Event) : EngineM σ Unit := do
  initChain app
  forM events (handle app stores)

end Engine

end Narwhal
