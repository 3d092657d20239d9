import ForwardShading.Draw.Prepared
import ForwardShading.Proofs.Draw.Environment

/-!
# Prepared calls

What preparation says of its calls: which instances they draw (`Environment.objects_callsAfter`),
what their flags say of the call before (`Follows`, `Environment.linked_callsAfter`), and, over a
cache whose variants were all built from descriptions of their keys, that each carries what building
its own description gives (`Environment.variant_of_mem_callsAfter`).
-/

namespace ForwardShading

/-- What the flags of a call say of the call before. -/
structure Follows (previous : Option DrawCall) (c : DrawCall) : Prop where
  newMaterial : c.newMaterial = !previous.any fun p =>
    p.object.material = c.object.material ∧ p.object.shaderFlags = c.object.shaderFlags
  maskChanged : c.maskChanged = !previous.any fun p => p.object.mask = c.object.mask
  variant : ∀ p ∈ previous, c.newMaterial = false → c.variant = p.variant

/-- Each call follows the one before it. -/
def Linked (previous : Option DrawCall) : List DrawCall → Prop
  | [] => True
  | c :: cs => Follows previous c ∧ Linked (some c) cs

theorem Linked.follows {previous : Option DrawCall} {cs : List DrawCall} (h : Linked previous cs) :
    ∀ c ∈ cs.head?, Follows previous c := by
  rintro c hc
  cases cs with
  | nil => cases hc
  | cons c' cs =>
    cases hc
    exact h.1

theorem Linked.follows_succ {previous : Option DrawCall} {cs : List DrawCall} {n : Nat}
    {a b : DrawCall} (h : Linked previous cs) (ha : cs[n]? = some a) (hb : cs[n + 1]? = some b) :
    Follows (some a) b := by
  induction cs generalizing previous n with
  | nil => cases ha
  | cons c cs ih =>
    cases n with
    | zero =>
      cases ha
      rw [List.getElem?_cons_succ, ← List.head?_eq_getElem?] at hb
      exact h.2.follows b hb
    | succ n => exact ih h.2 ha hb

namespace Follows

variable {previous : Option DrawCall} {p c : DrawCall}

theorem newMaterial_of_none (h : Follows none c) : c.newMaterial = true := by
  rw [h.newMaterial]
  rfl

theorem maskChanged_of_none (h : Follows none c) : c.maskChanged = true := by
  rw [h.maskChanged]
  rfl

theorem newMaterial_eq_false_iff (h : Follows (some p) c) :
    c.newMaterial = false ↔
      p.object.material = c.object.material ∧ p.object.shaderFlags = c.object.shaderFlags := by
  rw [h.newMaterial]
  simp

theorem maskChanged_eq_false_iff (h : Follows (some p) c) :
    c.maskChanged = false ↔ p.object.mask = c.object.mask := by
  rw [h.maskChanged]
  simp

theorem material_eq (h : Follows (some p) c) (hc : c.newMaterial = false) :
    p.object.material = c.object.material :=
  (h.newMaterial_eq_false_iff.1 hc).1

theorem mask_eq (h : Follows (some p) c) (hc : c.maskChanged = false) :
    p.object.mask = c.object.mask :=
  h.maskChanged_eq_false_iff.1 hc

end Follows

namespace Environment

variable (e : Environment) (materials : MaterialTable) (lights : SortedLights) (pass : ShaderPass)

/-- The call of an instance that comes after `previous`. -/
def callAfter (cache : VariantCache VariantKey) (previous : Option Instance) (i : Instance)
    (index : Nat) : DrawCall where
  index
  object := i
  variant := (cache.getOrBuild (e.key materials lights pass i) fun _ =>
    e.describe materials lights pass i).1
  newMaterial :=
    !previous.any fun p => p.material = i.material ∧ p.shaderFlags = i.shaderFlags
  maskChanged := !previous.any fun p => p.mask = i.mask

/-- The cache behind the request for the program of an instance. -/
def cacheAfter (cache : VariantCache VariantKey) (i : Instance) : VariantCache VariantKey :=
  (cache.getOrBuild (e.key materials lights pass i) fun _ => e.describe materials lights pass i).2

variable {cache : VariantCache VariantKey} {previous : Option Instance} {i : Instance}

theorem callsAfter_cons_of_isEmpty (h : i.isEmpty = true) (n : Nat) (is : List (Instance × Nat)) :
    e.callsAfter materials lights pass cache previous ((i, n) :: is) =
      e.callsAfter materials lights pass cache previous is := by
  rw [callsAfter, if_pos h]

theorem callsAfter_cons (h : i.isEmpty = false) (n : Nat) (is : List (Instance × Nat)) :
    e.callsAfter materials lights pass cache previous ((i, n) :: is) =
      (e.callAfter materials lights pass cache previous i n ::
        (e.callsAfter materials lights pass (e.cacheAfter materials lights pass cache i)
          (some i) is).1,
       (e.callsAfter materials lights pass (e.cacheAfter materials lights pass cache i)
          (some i) is).2) := by
  rw [callsAfter, if_neg (by simp [h])]
  rfl

/-- The calls are those of the instances that have something to draw, in their order. -/
theorem objects_callsAfter (is : List (Instance × Nat)) :
    (e.callsAfter materials lights pass cache previous is).1.map (fun c => (c.object, c.index)) =
      is.filter fun x => !x.1.isEmpty := by
  induction is generalizing cache previous with
  | nil => rfl
  | cons x is ih =>
    obtain ⟨i, n⟩ := x
    cases h : i.isEmpty with
    | true =>
      rw [callsAfter_cons_of_isEmpty _ _ _ _ h, ih, List.filter_cons_of_neg (by simp [h])]
    | false =>
      rw [callsAfter_cons _ _ _ _ h, List.map_cons, ih, List.filter_cons_of_pos (by simp [h])]
      rfl

section Linked

theorem key_congr {j : Instance} (hm : i.material = j.material)
    (hf : i.shaderFlags = j.shaderFlags) :
    e.key materials lights pass i = e.key materials lights pass j := by
  simp only [key, hm, hf]

theorem follows_callAfter {previous : Option DrawCall}
    (h : ∀ p ∈ previous,
      cache.get? (e.key materials lights pass p.object) = some p.variant) (i : Instance) (n : Nat) :
    Follows previous
      (e.callAfter materials lights pass cache (previous.map (·.object)) i n) where
  newMaterial := by cases previous <;> rfl
  maskChanged := by cases previous <;> rfl
  variant := by
    rintro p hp hc
    obtain rfl : previous = some p := hp
    simp only [callAfter, Option.map_some, Option.any_some, Bool.decide_and, Bool.not_eq_false',
      Bool.and_eq_true, decide_eq_true_eq] at hc
    refine VariantCache.fst_getOrBuild_of_get? ?_ _
    rw [← key_congr e materials lights pass hc.1 hc.2]
    exact h p rfl

/-- Over any cache each call follows the one before it. -/
theorem linked_callsAfter {previous : Option DrawCall}
    (h : ∀ p ∈ previous,
      cache.get? (e.key materials lights pass p.object) = some p.variant)
    (is : List (Instance × Nat)) :
    Linked previous
      (e.callsAfter materials lights pass cache (previous.map (·.object)) is).1 := by
  induction is generalizing cache previous with
  | nil => trivial
  | cons x is ih =>
    obtain ⟨i, n⟩ := x
    cases hi : i.isEmpty with
    | true =>
      rw [callsAfter_cons_of_isEmpty _ _ _ _ hi]
      exact ih h
    | false =>
      rw [callsAfter_cons _ _ _ _ hi]
      refine ⟨follows_callAfter e materials lights pass h i n, ?_⟩
      -- The variant of this call is in the cache when the next one asks for it.
      have hnext : ∀ p ∈ some (e.callAfter materials lights pass cache
          (previous.map (·.object)) i n),
          (e.cacheAfter materials lights pass cache i).get?
            (e.key materials lights pass p.object) = some p.variant := by
        rintro p ⟨⟩
        exact VariantCache.get?_getOrBuild _ _ _
      exact ih hnext

end Linked

section BuiltFrom

variable {family : SortedLights → Prop}

/-- Over a cache of built variants a call carries what building its description gives, and the cache
stays one of built variants. -/
theorem variant_of_mem_callsAfter (hfamily : SortedLights.AllToldApart family) (hl : family lights)
    (h : cache.BuiltFrom (Describes family)) (is : List (Instance × Nat)) :
    (∀ c ∈ (e.callsAfter materials lights pass cache previous is).1,
      c.variant = VariantCache.build cache.dialect (e.key materials lights pass c.object)
        (e.describe materials lights pass c.object)) ∧
    (e.callsAfter materials lights pass cache previous is).2.BuiltFrom (Describes family) ∧
    (e.callsAfter materials lights pass cache previous is).2.dialect = cache.dialect := by
  induction is generalizing cache previous with
  | nil => exact ⟨fun c hc => absurd hc List.not_mem_nil, h, rfl⟩
  | cons x is ih =>
    obtain ⟨i, n⟩ := x
    cases hi : i.isEmpty with
    | true =>
      rw [callsAfter_cons_of_isEmpty _ _ _ _ hi]
      exact ih h
    | false =>
      have hafter : (e.cacheAfter materials lights pass cache i).BuiltFrom (Describes family) :=
        h.snd_getOrBuild (describes_key e materials hl pass i)
      have hdialect : (e.cacheAfter materials lights pass cache i).dialect = cache.dialect :=
        VariantCache.dialect_getOrBuild _ _ _
      rw [callsAfter_cons _ _ _ _ hi]
      obtain ⟨hcalls, hbuilt, hd⟩ := @ih _ (some i) hafter
      refine ⟨fun c hc => ?_, hbuilt, hd.trans hdialect⟩
      rcases List.mem_cons.1 hc with rfl | hc
      · exact h.fst_getOrBuild fun d hd => hd.eq_describe hfamily hl
      · rw [hcalls c hc, hdialect]

/-- What is in a cache of built variants does not show in the calls. -/
theorem callsAfter_congr (hfamily : SortedLights.AllToldApart family) (hl : family lights)
    {cache' : VariantCache VariantKey} (h : cache.BuiltFrom (Describes family))
    (h' : cache'.BuiltFrom (Describes family)) (hd : cache.dialect = cache'.dialect)
    (is : List (Instance × Nat)) :
    (e.callsAfter materials lights pass cache previous is).1 =
      (e.callsAfter materials lights pass cache' previous is).1 := by
  induction is generalizing cache cache' previous with
  | nil => rfl
  | cons x is ih =>
    obtain ⟨i, n⟩ := x
    cases hi : i.isEmpty with
    | true =>
      rw [callsAfter_cons_of_isEmpty _ _ _ _ hi, callsAfter_cons_of_isEmpty _ _ _ _ hi]
      exact ih h h' hd
    | false =>
      have hcall : e.callAfter materials lights pass cache previous i n =
          e.callAfter materials lights pass cache' previous i n := by
        simp only [callAfter]
        rw [h.fst_getOrBuild fun d hd => hd.eq_describe hfamily hl,
          h'.fst_getOrBuild fun d hd => hd.eq_describe hfamily hl, hd]
      have hafter : ∀ {c : VariantCache VariantKey}, c.BuiltFrom (Describes family) →
          (e.cacheAfter materials lights pass c i).BuiltFrom (Describes family) := fun hc =>
        hc.snd_getOrBuild (describes_key e materials hl pass i)
      have hdialect : (e.cacheAfter materials lights pass cache i).dialect =
          (e.cacheAfter materials lights pass cache' i).dialect := by
        simpa only [cacheAfter, VariantCache.dialect_getOrBuild] using hd
      rw [callsAfter_cons _ _ _ _ hi, callsAfter_cons _ _ _ _ hi, hcall,
        ih (hafter h) (hafter h') hdialect]

end BuiltFrom

theorem objects_prepare (cache : VariantCache VariantKey) (is : List Instance) :
    (e.prepare materials cache is lights pass).1.calls.map (fun c => (c.object, c.index)) =
      is.zipIdx.filter fun x => !x.1.isEmpty :=
  e.objects_callsAfter materials lights pass is.zipIdx

theorem map_object_prepare (cache : VariantCache VariantKey) (is : List Instance) :
    (e.prepare materials cache is lights pass).1.calls.map (·.object) =
      is.filter (!·.isEmpty) := by
  have h := congrArg (List.map Prod.fst) (e.objects_prepare materials lights pass cache is)
  rw [List.map_map] at h
  calc (e.prepare materials cache is lights pass).1.calls.map (·.object)
      = (is.zipIdx.filter fun x => !x.1.isEmpty).map Prod.fst := h
    _ = (is.zipIdx.map Prod.fst).filter (!·.isEmpty) := by rw [List.filter_map]; rfl
    _ = is.filter (!·.isEmpty) := by rw [List.zipIdx_map_fst]

theorem linked_prepare (cache : VariantCache VariantKey) (is : List Instance) :
    Linked none (e.prepare materials cache is lights pass).1.calls :=
  @linked_callsAfter e materials lights pass cache none (by simp) is.zipIdx

section BuiltFrom

variable {family : SortedLights → Prop} (hfamily : SortedLights.AllToldApart family)
  (hl : family lights)

include hfamily hl

theorem variant_of_mem_prepare (h : cache.BuiltFrom (Describes family)) (is : List Instance)
    {c : DrawCall} (hc : c ∈ (e.prepare materials cache is lights pass).1.calls) :
    c.variant = VariantCache.build cache.dialect (e.key materials lights pass c.object)
      (e.describe materials lights pass c.object) :=
  (e.variant_of_mem_callsAfter materials lights pass hfamily hl h is.zipIdx).1 c hc

theorem builtFrom_prepare (h : cache.BuiltFrom (Describes family)) (is : List Instance) :
    (e.prepare materials cache is lights pass).2.BuiltFrom (Describes family) ∧
      (e.prepare materials cache is lights pass).2.dialect = cache.dialect :=
  (@variant_of_mem_callsAfter e materials lights pass cache none family hfamily hl h is.zipIdx).2

theorem calls_prepare_congr {cache' : VariantCache VariantKey}
    (h : cache.BuiltFrom (Describes family)) (h' : cache'.BuiltFrom (Describes family))
    (hd : cache.dialect = cache'.dialect) (is : List Instance) :
    (e.prepare materials cache is lights pass).1.calls =
      (e.prepare materials cache' is lights pass).1.calls :=
  e.callsAfter_congr materials lights pass hfamily hl h h' hd is.zipIdx

end BuiltFrom

theorem getElem?_index_of_mem_prepare (cache : VariantCache VariantKey) (is : List Instance)
    {c : DrawCall} (hc : c ∈ (e.prepare materials cache is lights pass).1.calls) :
    is[c.index]? = some c.object := by
  have h : (c.object, c.index) ∈
      (e.prepare materials cache is lights pass).1.calls.map (fun c => (c.object, c.index)) :=
    List.mem_map_of_mem hc
  rw [objects_prepare] at h
  exact List.mem_zipIdx_iff_getElem?.1 (List.mem_of_mem_filter h)

end Environment

end ForwardShading
