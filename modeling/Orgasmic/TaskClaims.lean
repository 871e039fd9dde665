import Orgasmic.Registers
import Orgasmic.TxWriter

/-! # Task claims

Every machine appends its claims and releases of tasks to a log of its own. `foldClaims` folds the
rows of all logs into one claim a task: the contenders are the machines that hold a claim, the
holder is the contender whose claim came first. `readClaims` reads the logs and refuses one that
names another machine than its directory. -/

namespace Orgasmic

open Std Registers

def CLAIMED : Text := "task.claimed".toList
def RELEASED : Text := "task.claim_released".toList

structure TaskClaim where
  task : Text
  holder : Text
  claimedAt : Text
  writeScope : Option Text
  contenders : List Text
deriving DecidableEq, Repr

/-- The order of claim events: by time, then machine, then transaction id. -/
def claimCmp : TxEntry → TxEntry → Ordering :=
  compareLex (compareOn TxEntry.time)
    (compareLex (compareOn TxEntry.machine) (compareOn TxEntry.txId))

/-- The order of the keys `(task, machine)`. -/
def keyCmp : Text × Text → Text × Text → Ordering :=
  compareLex (compareOn Prod.fst) (compareOn Prod.snd)

def isClaimEvent (entry : TxEntry) : Bool :=
  (decide (entry.ty = CLAIMED) || decide (entry.ty = RELEASED)) && entry.task.isSome

/-- The register that a row is about. -/
def claimKey (entry : TxEntry) : Option (Text × Text) :=
  entry.task.map fun task => (task, entry.machine)

def writeScopeOf (winner : TxEntry) : Option Text :=
  (winner.extra? "WRITE_SCOPE".toList).filter fun value => value ≠ []

/-- The claim of a task on which these machines stand. -/
def taskClaim (task : Text) (claims : List TxEntry) : Option TaskClaim :=
  let claims := sortBy claimCmp claims
  match claims with
  | [] => none
  | winner :: _ =>
      some ⟨task, winner.machine, winner.time, writeScopeOf winner, claims.map TxEntry.machine⟩

/-- The claims that stand, one for every task and machine. -/
def activeClaims (entries : List TxEntry) : TreeMap (Text × Text) TxEntry keyCmp :=
  (sortBy claimCmp (entries.filter isClaimEvent)).foldl
    (record claimKey fun entry => decide (entry.ty = CLAIMED)) ∅

def claimsByTask (active : TreeMap (Text × Text) TxEntry keyCmp) :
    TreeMap Text (List ((Text × Text) × TxEntry)) :=
  active.toList.foldl (push fun claim => claim.1.1) ∅

/-- Fold every machine's append-only claim log. -/
def foldClaims (entries : List TxEntry) : TreeMap Text TaskClaim :=
  (claimsByTask (activeClaims entries)).filterMap fun task claims =>
    taskClaim task (claims.map Prod.snd)

/-! ### Reading the logs -/

/-- The claim log of a machine: the name of its directory, its path and its text. -/
structure ClaimFile where
  machine : Text
  path : Text
  source : Text

inductive ReadClaimsError where
  | parse (path : Text) (error : TxError)
  /-- The log belongs to `machine`, but the event `txId` names another one. -/
  | foreign (path machine txId named : Text)
deriving DecidableEq, Repr

def readClaimLog (file : ClaimFile) : Except ReadClaimsError (List TxEntry) :=
  match parseTxFile file.source file.path with
  | .error error => .error (.parse file.path error)
  | .ok parsed =>
      match parsed.find? fun entry => entry.machine ≠ file.machine with
      | some entry => .error (.foreign file.path file.machine entry.txId entry.machine)
      | none => .ok parsed

/-- The rows of the logs, in the order of their paths. -/
def readClaimLogs : List ClaimFile → Except ReadClaimsError (List TxEntry)
  | [] => .ok []
  | file :: files => do
      let parsed ← readClaimLog file
      let entries ← readClaimLogs files
      return parsed ++ entries

def readClaims (files : List ClaimFile) : Except ReadClaimsError (TreeMap Text TaskClaim) := do
  let entries ← readClaimLogs files
  return foldClaims entries

end Orgasmic
