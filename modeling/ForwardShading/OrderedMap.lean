/-!
# Ordered maps

A finite map kept as a list of entries in ascending order of their keys, each key at most once. Two
maps with the same entries are equal.
-/

namespace ForwardShading

/-- A finite map whose entries are in ascending order. -/
structure OrderedMap (κ ν : Type) [Ord κ] where
  entries : List (κ × ν)
  ascending : entries.Pairwise fun a b => compare a.1 b.1 = .lt

namespace OrderedMap

variable {κ ν : Type} [Ord κ]

instance [DecidableEq κ] [DecidableEq ν] : DecidableEq (OrderedMap κ ν) := fun a b =>
  decidable_of_iff (a.entries = b.entries) (by cases a; cases b; simp)

/-- The map without entries. -/
def empty : OrderedMap κ ν :=
  ⟨[], .nil⟩

instance : Inhabited (OrderedMap κ ν) :=
  ⟨empty⟩

/-- Whether a map has no entries. -/
def isEmpty (m : OrderedMap κ ν) : Bool :=
  m.entries.isEmpty

/-- The keys of a map, in ascending order. -/
def keys (m : OrderedMap κ ν) : List κ :=
  m.entries.map (·.1)

/-- The value of a key, if the map has the key. -/
def get? (m : OrderedMap κ ν) (k : κ) : Option ν :=
  (m.entries.find? fun e => compare e.1 k == .eq).map (·.2)

/-- Puts an entry at its place, over one with the same key. -/
def insertEntry (k : κ) (v : ν) : List (κ × ν) → List (κ × ν)
  | [] => [(k, v)]
  | e :: es =>
    match compare k e.1 with
    | .lt => (k, v) :: e :: es
    | .eq => (k, v) :: es
    | .gt => e :: insertEntry k v es

theorem mem_insertEntry {k : κ} {v : ν} {es : List (κ × ν)} {e : κ × ν}
    (h : e ∈ insertEntry k v es) : e = (k, v) ∨ e ∈ es := by
  fun_induction insertEntry k v es <;> grind

theorem ascending_insertEntry [Std.TransOrd κ] (k : κ) (v : ν) {es : List (κ × ν)}
    (h : es.Pairwise fun a b => compare a.1 b.1 = .lt) :
    (insertEntry k v es).Pairwise fun a b => compare a.1 b.1 = .lt := by
  fun_induction insertEntry k v es with
  | case1 => simp
  | case2 e es hk =>
    refine List.pairwise_cons.2 ⟨fun a ha => ?_, h⟩
    rcases List.mem_cons.1 ha with rfl | ha
    · exact hk
    · exact Std.TransCmp.lt_trans hk (List.rel_of_pairwise_cons h ha)
  | case3 e es hk =>
    exact List.pairwise_cons.2 ⟨fun a ha =>
      Std.TransCmp.lt_of_eq_of_lt hk (List.rel_of_pairwise_cons h ha), (List.pairwise_cons.1 h).2⟩
  | case4 e es hk ih =>
    refine List.pairwise_cons.2 ⟨fun a ha => ?_, ih (List.pairwise_cons.1 h).2⟩
    rcases mem_insertEntry ha with rfl | ha
    · exact Std.OrientedCmp.lt_of_gt hk
    · exact List.rel_of_pairwise_cons h ha

/-- The map with a value for a key, in place of the one that the key had. -/
def insert [Std.TransOrd κ] (m : OrderedMap κ ν) (k : κ) (v : ν) : OrderedMap κ ν :=
  ⟨insertEntry k v m.entries, ascending_insertEntry k v m.ascending⟩

/-- The map with the given entries. Of two with the same key the later one counts. -/
def ofList [Std.TransOrd κ] (es : List (κ × ν)) : OrderedMap κ ν :=
  es.foldl (fun m e => m.insert e.1 e.2) empty

end OrderedMap

end ForwardShading
