/-
The store of the parameters that outlive a request: either one that forgets, or one
that keeps everything.
-/
import TagTemplate.Store.Recency

namespace TagTemplate

inductive Store where
  | bounded (r : Recency)
  | unbounded (entries : Entries)

namespace Store

def entries : Store → Entries
  | bounded r => r.entries
  | unbounded es => es

def read : Store → Text → Option Text × Store
  | bounded r, name => let (value, r) := r.read name; (value, bounded r)
  | unbounded es, name => (es.find? name, unbounded es)

def insert : Store → Text → Text → Store
  | bounded r, name, value => bounded (r.insert name value)
  | unbounded es, name, value => unbounded (es.insert name value)

def erase : Store → Text → Store
  | bounded r, name => bounded (r.erase name)
  | unbounded es, name => unbounded (es.erase name)

def insertAll (s : Store) (pairs : List (Text × Text)) : Store :=
  pairs.foldl (fun s p => s.insert p.1 p.2) s

end Store

end TagTemplate
