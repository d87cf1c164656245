import DrawnModels.Petri.Net
import DrawnModels.Petri.Tokens
import DrawnModels.Text.Shown

/-!
# Markings

A marking lists the token counts of the places of a net, by the numbers of the places. Places
beyond its end hold no tokens, but tokens can be neither taken from there nor put there.

A transition is enabled if every input place holds as many tokens as the arc from it weighs. It
fires by taking one token for every input arc and then putting one for every output arc.
-/

namespace DrawnModels

structure Marking (cap : Capacity) where
  counts : List (Tokens cap)
deriving DecidableEq

namespace Marking

variable {cap : Capacity}

instance : Ord (Marking cap) where
  compare m n := compare m.counts n.counts

instance : Std.TransOrd (Marking cap) where
  eq_swap {m n} := @Std.OrientedCmp.eq_swap _ compare _ m.counts n.counts
  isLE_trans {l m n} := @Std.TransCmp.isLE_trans _ compare _ l.counts m.counts n.counts

instance : Std.LawfulEqOrd (Marking cap) where
  compare_self {m} := @Std.ReflCmp.compare_self _ compare _ m.counts
  eq_of_compare {m n} h := by
    have : m.counts = n.counts := Std.LawfulEqCmp.eq_of_compare h
    cases m; cases n; cases this; rfl

def empty : Marking cap :=
  ⟨[]⟩

/-- The marking of `places` places without tokens. -/
def zero (places : Nat) : Marking cap :=
  ⟨List.replicate places .zero⟩

def size (m : Marking cap) : Nat :=
  m.counts.length

def isEmpty (m : Marking cap) : Bool :=
  m.counts.isEmpty

def get (m : Marking cap) (place : Nat) : Tokens cap :=
  m.counts.getD place .zero

def hasOmega (m : Marking cap) : Bool :=
  m.counts.any Tokens.isOmega

/-- The marking of exactly `places` places: the rest is cut off, and what is missing is empty. -/
def resized (m : Marking cap) (places : Nat) : Marking cap :=
  ⟨(List.range places).map m.get⟩

def enables (m : Marking cap) (t : Transition) : Bool :=
  t.inputs.all fun place => (m.get place).atLeast (t.inputWeight place)

def take? (m : Marking cap) (place : Nat) : Option (Marking cap) :=
  match m.counts[place]? with
  | some n => n.pred?.map fun n => ⟨m.counts.set place n⟩
  | none => none

def put? (m : Marking cap) (place : Nat) : Option (Marking cap) :=
  match m.counts[place]? with
  | some n => some ⟨m.counts.set place n.succ⟩
  | none => none

def fire? (m : Marking cap) (t : Transition) : Option (Marking cap) :=
  (t.inputs.foldlM take? m).bind (t.outputs.foldlM put?)

/-- Whether both mark the same number of places and `m` has at least as many tokens on each. -/
def covers (m n : Marking cap) : Bool :=
  m.counts.isEqv n.counts fun new old => old ≤ new

/-- Whether `m` covers `n` and has more tokens on some place. -/
def strictlyCovers (m n : Marking cap) : Bool :=
  m.covers n && (m.counts.zip n.counts).any fun e => e.2 < e.1

/-- The counts `new` with ω in the place of each that exceeds the one in `old`. -/
def raise : List (Tokens cap) → List (Tokens cap) → List (Tokens cap)
  | new :: news, old :: olds => (if old < new then .omega else new) :: raise news olds
  | news, [] => news
  | [], _ => []

/-- Puts ω on every place on which the marking exceeds another. -/
def accelerate (m old : Marking cap) : Marking cap :=
  ⟨raise m.counts old.counts⟩

/-- The places that acceleration gives ω to and that did not have it. -/
def raisedPlaces (m old : Marking cap) : List Nat :=
  (List.range (min m.size old.size)).filter fun place =>
    old.get place < m.get place && !(m.get place).isOmega

/-- The counts with the names of their places, as many as there are of both. -/
def labelled (m : Marking cap) (names : List String) (separator : String) : String :=
  Text.join separator (names.zipWith (fun name n => name ++ "=" ++ n.render) m.counts)

instance : Shown (Marking cap) where
  shown m := "(" ++ Text.join ", " (m.counts.map Tokens.render) ++ ")"

/-! ### Sizes -/

theorem size_of_take? {m n : Marking cap} {place : Nat} (h : m.take? place = some n) :
    n.size = m.size := by
  unfold take? at h
  split at h
  · obtain ⟨k, _, rfl⟩ := Option.map_eq_some_iff.mp h
    simp [size]
  · cases h

theorem size_of_put? {m n : Marking cap} {place : Nat} (h : m.put? place = some n) :
    n.size = m.size := by
  unfold put? at h
  split at h
  · cases h; simp [size]
  · cases h

theorem size_of_foldlM {f : Marking cap → Nat → Option (Marking cap)}
    (hf : ∀ m place n, f m place = some n → n.size = m.size) {places : List Nat}
    {m n : Marking cap} (h : places.foldlM f m = some n) : n.size = m.size := by
  induction places generalizing m with
  | nil => cases h; rfl
  | cons place places ih =>
    rw [List.foldlM_cons] at h
    obtain ⟨k, hk, h⟩ := Option.bind_eq_some_iff.mp h
    rw [ih h, hf m place k hk]

theorem size_of_fire? {m n : Marking cap} {t : Transition} (h : m.fire? t = some n) :
    n.size = m.size := by
  obtain ⟨k, hk, h⟩ := Option.bind_eq_some_iff.mp h
  rw [size_of_foldlM (fun _ _ _ => size_of_put?) h, size_of_foldlM (fun _ _ _ => size_of_take?) hk]

theorem length_raise (new old : List (Tokens cap)) : (raise new old).length = new.length := by
  induction new generalizing old with
  | nil => cases old <;> rfl
  | cons n new ih =>
    cases old with
    | nil => rfl
    | cons o old => simp [raise, ih]

@[simp] theorem size_accelerate (m old : Marking cap) : (m.accelerate old).size = m.size :=
  length_raise m.counts old.counts

@[simp] theorem size_resized (m : Marking cap) (places : Nat) : (m.resized places).size = places := by
  simp [resized, size]

end Marking

end DrawnModels
