import Orgasmic.Text

/-! # Transaction rows

One row of the ledger, as `tx.rs` holds it in memory. -/

namespace Orgasmic

open Text

/-- One tx record. -/
structure TxEntry where
  txId : Text
  /-- An Org timestamp in brackets. -/
  time : Text
  ty : Text
  actor : Text
  machine : Text
  project : Option Text
  task : Option Text
  target : Option Text
  reason : Option Text
  /-- Further properties, in the order they are written. -/
  extra : List (Text × Text)
deriving DecidableEq, Repr

namespace TxEntry

def new (txId ty time actor machine : Text) : TxEntry :=
  ⟨txId, time, ty, actor, machine, none, none, none, none, []⟩

/-- The tasks that a row names. -/
def entryTasks (entry : TxEntry) : List Text := splitWhitespace (entry.task.getD [])

/-- The first further property with this key. -/
def extra? (entry : TxEntry) (key : Text) : Option Text :=
  (entry.extra.find? fun p => p.1 = key).map Prod.snd

end TxEntry

end Orgasmic
