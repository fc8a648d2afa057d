import ReplicaRing.Client.Basic

/-! Listings page by page. The cursor moves only to the end of a page that is returned. -/
namespace ReplicaRing

/-- Lists the entries whose keys begin with `stem`, after `lastSeen`. -/
structure Lister where
  stem : String
  kind : ListKind
  lastSeen : Option String
deriving DecidableEq

/-- What comes of asking for a page; there is no run if nothing may be asked for. -/
structure PageTurn (σ : Type) where
  lister : Lister
  run : Option (Run (Surroundings σ) ListPage)
  result : Except ArgumentError (OperationResult ListPage)

namespace Lister

variable {σ : Type}

/-- Number of entries on a page, unless said otherwise. -/
def pageSize : Nat := 100

/-- The end of the page that was found, if the page has one. -/
def pageEnd (r : OperationResult ListPage) : Option RawKey :=
  r.goal.found?.bind fun found => found.value.lastSeen

/-- Asks for at most `max` further entries. A page whose end is no key is an error, although it was
found. -/
def more (l : Lister) (c : Client) (a : Accessor σ) (max : Nat) (m : Moment σ) : PageTurn σ :=
  if max = 0 then ⟨l, none, .error .nothingToList⟩
  else
    let run := c.listPage a l.stem l.kind max (l.lastSeen.map RawKey.ofText) m
    match pageEnd run.result with
    | none => ⟨l, some run, .ok run.result⟩
    | some raw =>
      match raw.toText with
      | .ok key => ⟨{ l with lastSeen := some key }, some run, .ok run.result⟩
      | .error cause => ⟨l, some run, .error cause⟩

end Lister
end ReplicaRing
