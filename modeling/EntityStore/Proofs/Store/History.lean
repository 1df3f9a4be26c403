import EntityStore.Proofs.Store.Lookup
import EntityStore.Proofs.Store.Save

/-! Histories of saves: a store is a map from kinds and ids to entities, over the files it found. -/
namespace EntityStore.Store

/-- A call that saves, through a store of its own. -/
inductive Call
  | save (s : Store) (e : Entity) (overwrite : Bool)
  | saveAll (s : Store) (es : List Entity) (overwrite : Bool)

namespace Call

def store : Call → Store
  | save s _ _ => s
  | saveAll s _ _ => s

def batch : Call → List Entity
  | save _ e _ => [e]
  | saveAll _ es _ => es

def overwrite : Call → Bool
  | save _ _ ow => ow
  | saveAll _ _ ow => ow

/-- The tree after a call, and whether it succeeded. -/
def run (t : Tree) : Call → Tree × Except Error Unit
  | save s e ow => s.save t e ow
  | saveAll s es ow => s.saveAll t es ow

theorem run_eq_saveAll (t : Tree) (c : Call) :
    c.run t = c.store.saveAll t c.batch c.overwrite := by
  cases c <;> rfl

/-- The tree after calls in turn. -/
def runAll (t : Tree) (calls : List Call) : Tree := calls.foldl (fun t c => (c.run t).1) t

end Call

end EntityStore.Store
