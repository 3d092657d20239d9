import ForwardShading.Draw.Submission
import ForwardShading.Proofs.Program.Basic
import ForwardShading.Proofs.Program.Block
import Mathlib.Algebra.GroupWithZero.Nat

/-!
# Binding points

A uniform buffer takes the first slot of its group, a texture the slot that its bind group gives it,
and its sampler the next.  The textures of a group fill its slots without gaps
(`BindGroup.takenSlots_ofTextures`), behind the buffer where there is one.  So no two declarations of
a program share a slot of a group, and each texture is declared where draws bind it
(`Program.declaresBound`).
-/

namespace ForwardShading

theorem Tier.group_injective : Function.Injective Tier.group := by
  intro t t' h
  cases t <;> cases t' <;> first | rfl | exact absurd h (by decide)

/-! ## Slots -/

/-- The slots of a texture and its sampler. -/
def BoundTexture.takenSlots (t : BoundTexture) : List Nat :=
  t.slot :: if t.hasSampler then [t.slot + 1] else []

theorem BoundTexture.takenSlots_eq (t : BoundTexture) :
    t.takenSlots = List.range' t.slot t.slots := by
  unfold takenSlots Texture.slots
  split <;> rfl

namespace BindGroup

/-- The slots that the textures of a group take with their samplers. -/
def takenSlots (g : BindGroup) : List Nat :=
  g.textures.flatMap (·.takenSlots)

/-- Textures take the slots from the first one on, one after the other. -/
theorem takenSlots_ofTextures (first : Nat) (ts : List Texture) :
    (ofTextures first ts).takenSlots = List.range' first (ts.map (·.slots)).sum := by
  unfold takenSlots ofTextures
  induction ts generalizing first with
  | nil => rfl
  | cons t ts ih =>
    rw [assign, List.flatMap_cons, ih, BoundTexture.takenSlots_eq, List.map_cons, List.sum_cons]
    exact List.range'_append_1

theorem nodup_takenSlots_ofTextures (first : Nat) (ts : List Texture) :
    (ofTextures first ts).takenSlots.Nodup := by
  rw [takenSlots_ofTextures]
  exact List.nodup_range'

end BindGroup

theorem ObjectLayout.exists_textures_eq {tiers : ResourceTiers} {us : List Glsl.Uniform}
    {l : ObjectLayout} (h : allocate tiers us = .ok l) : ∃ ts, l.textures = .ofTextures 0 ts := by
  obtain ⟨fields, -, -, htextures⟩ := exists_fields_of_allocate h
  exact ⟨_, htextures⟩

/-! ## Sets that are supplied -/

namespace ResourceTiers

/-- Holds of sets that place their textures behind their buffer, for the view and the material. -/
structure IsSupplied (tiers : ResourceTiers) : Prop where
  made : ∀ s ∈ tiers, ∃ uniforms textures, s = .of s.tier uniforms textures
  distinct : (tiers.map (·.tier)).Nodup
  among : ∀ s ∈ tiers, s.tier = .view ∨ s.tier = .material

variable {tiers : ResourceTiers} {s : ResourceSet} {g : BindGroup}

/-- The group of a set has textures, from the first slot on or behind the buffer. -/
theorem IsSupplied.exists_textures_eq (h : tiers.IsSupplied) (hs : s ∈ tiers)
    (hg : s.textures = some g) :
    ∃ t ts, g = .ofTextures (if s.uniforms.isSome then 1 else 0) (t :: ts) := by
  obtain ⟨uniforms, textures, hmade⟩ := h.made s hs
  rw [hmade] at hg ⊢
  cases textures with
  | nil => cases hg
  | cons t ts => exact ⟨t, ts, (Option.some.inj hg).symm⟩

theorem IsSupplied.textures_ne_nil (h : tiers.IsSupplied) (hs : s ∈ tiers)
    (hg : s.textures = some g) : g.textures ≠ [] := by
  obtain ⟨t, ts, rfl⟩ := h.exists_textures_eq hs hg
  exact List.cons_ne_nil _ _

theorem IsSupplied.nodup_takenSlots (h : tiers.IsSupplied) (hs : s ∈ tiers)
    (hg : s.textures = some g) : g.takenSlots.Nodup := by
  obtain ⟨t, ts, rfl⟩ := h.exists_textures_eq hs hg
  exact BindGroup.nodup_takenSlots_ofTextures _ _

/-- The textures of a set with a buffer leave the first slot to it. -/
theorem IsSupplied.zero_notMem_takenSlots (h : tiers.IsSupplied) (hs : s ∈ tiers)
    (hg : s.textures = some g) (hu : s.uniforms.isSome) : 0 ∉ g.takenSlots := by
  obtain ⟨t, ts, rfl⟩ := h.exists_textures_eq hs hg
  rw [if_pos hu, BindGroup.takenSlots_ofTextures, List.mem_range'_1]
  omega

theorem IsSupplied.tier_ne (h : tiers.IsSupplied) (hs : s ∈ tiers) {tier : Tier}
    (ht : tier ≠ .view ∧ tier ≠ .material) : s.tier ≠ tier := by
  rintro rfl
  exact (h.among s hs).elim ht.1 ht.2

/-- What some sets have, listed with their tiers, is listed for different tiers. -/
theorem sublist_filterMap {γ : Type} (tiers : ResourceTiers) (f : ResourceSet → Option γ) :
    ((tiers.filterMap fun s => (f s).map (s.tier, ·)).map Prod.fst).Sublist
      (tiers.map (·.tier)) := by
  induction tiers with
  | nil => exact .slnil
  | cons s tiers ih =>
    cases hs : f s with
    | none => simpa [hs] using ih.cons s.tier
    | some c => simpa [hs] using ih.cons_cons s.tier

theorem IsSupplied.nodup_concat {γ : Type} (h : tiers.IsSupplied) (f : ResourceSet → Option γ)
    {tier : Tier} (ht : tier ≠ .view ∧ tier ≠ .material) (c : γ) :
    (((tiers.filterMap fun s => (f s).map (s.tier, ·)) ++ [(tier, c)]).map Prod.fst).Nodup := by
  rw [List.map_append, List.map_singleton]
  refine List.Nodup.append (h.distinct.sublist (tiers.sublist_filterMap f))
    (List.nodup_singleton _) fun t hmem htier => ?_
  obtain rfl := List.mem_singleton.1 htier
  obtain ⟨s, hs, htier⟩ := List.mem_map.1 ((tiers.sublist_filterMap f).subset hmem)
  exact h.tier_ne hs ht htier

end ResourceTiers

/-! ## Binding points -/

namespace BlockItem

/-- The group and the slot that an item takes. -/
def bindingPoint? : BlockItem → Option (Nat × Nat)
  | uniformBlock tier _ => some (tier.group, 0)
  | texture tier slot _ _ => some (tier.group, slot)
  | sampler tier slot _ => some (tier.group, slot)
  | _ => none

/-- The text of an item that takes a slot begins with its group and its slot. -/
theorem exists_text_eq {item : BlockItem} {group slot : Nat}
    (h : item.bindingPoint? = some (group, slot)) :
    ∃ rest, item.text =
      "layout(set = " ++ toString group ++ ", binding = " ++ toString slot ++ rest := by
  cases item with
  | uniformBlock tier fields =>
    cases h
    -- The slot stands inside a longer literal, out of which it is cut.
    have hcut (a t b c d : String) :
        a ++ ", binding = 0, std140) uniform ub_" ++ t ++ b ++ c ++ d =
          a ++ ", binding = " ++ toString 0 ++ (", std140) uniform ub_" ++ t ++ b ++ c ++ d) := by
      have hslot : ", binding = 0, std140) uniform ub_" =
          ", binding = " ++ toString 0 ++ ", std140) uniform ub_" := by rfl
      generalize ", binding = 0, std140) uniform ub_" = l at hslot ⊢
      subst hslot
      simp only [String.append_assoc]
    rw [text_uniformBlock]
    exact ⟨_, hcut _ _ _ _ _⟩
  | texture tier slot type name =>
    cases h
    refine ⟨") uniform " ++ (type ++ (" " ++ (name ++ ";\n"))), ?_⟩
    simp only [text_texture, String.append_assoc]
  | sampler tier slot name =>
    cases h
    refine ⟨") uniform " ++ ("sampler" ++ (" " ++ (name ++ ";\n"))), ?_⟩
    simp only [text_sampler, String.append_assoc]
  | _ => cases h

theorem filterMap_ofTexture (tier : Tier) (t : BoundTexture) :
    (ofTexture tier t).filterMap bindingPoint? = t.takenSlots.map (tier.group, ·) := by
  rw [ofTexture_eq]
  unfold BoundTexture.takenSlots
  by_cases hs : t.hasSampler <;> by_cases hd : t.dimension = .flatArray <;>
    simp [hs, hd, bindingPoint?]

theorem filterMap_ofResources (i : Interface) :
    (ofResources .explicitBinding i).filterMap bindingPoint? =
      i.buffers.map (fun (tier, _) => (tier.group, 0)) ++
        i.groups.flatMap fun (tier, g) => g.takenSlots.map (tier.group, ·) := by
  rw [ofResources_eq, List.filterMap_append, List.filterMap_map, List.filterMap_flatMap]
  congr 1
  · show i.buffers.filterMap (some ∘ fun (tier, _) => (tier.group, 0)) = _
    rw [List.filterMap_eq_map]
  · refine List.flatMap_congr fun (tier, g) _ => ?_
    show (g.textures.flatMap (ofTexture tier)).filterMap bindingPoint? = _
    simp only [List.filterMap_flatMap, filterMap_ofTexture, BindGroup.takenSlots, List.map_flatMap]

end BlockItem

namespace Interface

open BlockItem

variable {i : Interface} {tier : Tier}

theorem nodup_takenSlots {ts : List Texture} {g : BindGroup} (hsets : i.tiers.IsSupplied)
    (hlayout : i.layout.textures = .ofTextures 0 ts) (hg : (tier, g) ∈ i.groups) :
    g.takenSlots.Nodup := by
  rcases mem_groups.1 hg with ⟨s, hs, hg, -⟩ | ⟨-, rfl⟩
  · exact hsets.nodup_takenSlots hs hg
  · rw [hlayout]
    exact BindGroup.nodup_takenSlots_ofTextures 0 ts

/-- A buffer and a bind group of one tier are those of one set, which keeps the first slot for its
buffer. -/
theorem zero_notMem_takenSlots {l : Std140.Layout} {g : BindGroup} (hsets : i.tiers.IsSupplied)
    (hl : (tier, l) ∈ i.buffers) (hg : (tier, g) ∈ i.groups) : 0 ∉ g.takenSlots := by
  rcases mem_buffers.1 hl with ⟨s, hs, hsl, rfl⟩ | ⟨rfl, -⟩ <;>
    rcases mem_groups.1 hg with ⟨s', hs', hsg, htier⟩ | ⟨htier, -⟩
  · obtain rfl := List.inj_on_of_nodup_map hsets.distinct hs' hs htier
    exact hsets.zero_notMem_takenSlots hs hsg (by rw [hsl]; rfl)
  · exact absurd htier (hsets.tier_ne hs (by decide))
  · exact absurd htier (hsets.tier_ne hs' (by decide))
  · cases htier

theorem nodup_bindingPoints {ts : List Texture} (hsets : i.tiers.IsSupplied)
    (hlayout : i.layout.textures = .ofTextures 0 ts) :
    ((ofResources .explicitBinding i).filterMap bindingPoint?).Nodup := by
  have hbuffers : (i.buffers.map Prod.fst).Nodup :=
    hsets.nodup_concat (·.uniforms) (by decide) i.layout.uniforms
  have hgroups : (i.groups.map Prod.fst).Nodup :=
    hsets.nodup_concat (·.textures) (by decide) i.layout.textures
  rw [filterMap_ofResources]
  refine List.Nodup.append ?_ (List.nodup_flatMap.2 ⟨?_, ?_⟩) ?_
  · have hfirst : Function.Injective fun tier : Tier => (tier.group, 0) := fun tier tier' h =>
      Tier.group_injective (Prod.mk.inj h).1
    have h := hbuffers.map hfirst
    rwa [List.map_map] at h
  · rintro ⟨tier, g⟩ hg
    exact (nodup_takenSlots hsets hlayout hg).map fun _ _ h => (Prod.mk.inj h).2
  · refine (List.pairwise_map.1 hgroups).imp fun {a b} hne point ha hb => hne ?_
    obtain ⟨slot, -, rfl⟩ := List.mem_map.1 ha
    obtain ⟨slot', -, hpoint⟩ := List.mem_map.1 hb
    exact (Tier.group_injective (Prod.mk.inj hpoint).1).symm
  · intro point hbuffer hgroup
    obtain ⟨⟨tier, l⟩, hl, rfl⟩ := List.mem_map.1 hbuffer
    obtain ⟨⟨tier', g⟩, hg, hpoint⟩ := List.mem_flatMap.1 hgroup
    obtain ⟨slot, hslot, hpoint⟩ := List.mem_map.1 hpoint
    obtain ⟨hgroups, rfl⟩ := Prod.mk.inj hpoint
    obtain rfl := Tier.group_injective hgroups
    exact zero_notMem_takenSlots hsets hl hg hslot

end Interface

/-! ## Blocks -/

/-- Holds of a block that gives no slot of a group twice, and declares the textures of `groups` and
their samplers where these have them. -/
structure BlockItem.IsBoundBy (groups : List (Tier × BindGroup)) (block : List BlockItem) :
    Prop where
  nodup : (block.filterMap (·.bindingPoint?)).Nodup
  text : ∀ item ∈ block, ∀ group slot, item.bindingPoint? = some (group, slot) → ∃ rest,
    item.text = "layout(set = " ++ toString group ++ ", binding = " ++ toString slot ++ rest
  texture : ∀ tier slot type name, .texture tier slot type name ∈ block ↔
    ∃ g, (tier, g) ∈ groups ∧
      ∃ t ∈ g.textures, slot = t.slot ∧ type = t.textureType ∧ name = t.variableName
  sampler : ∀ tier slot name, .sampler tier slot name ∈ block ↔
    ∃ g, (tier, g) ∈ groups ∧
      ∃ t ∈ g.textures, t.hasSampler ∧ slot = t.slot + 1 ∧ name = t.samplerName

namespace Interface

open BlockItem

variable {i : Interface} {ts : List Texture}

/-- Declarations that take no slot may stand in front of the resources. -/
theorem isBoundBy_append (hsets : i.tiers.IsSupplied) (hlayout : i.layout.textures = .ofTextures 0 ts)
    {front : List BlockItem} (hfront : ∀ item ∈ front, item.bindingPoint? = none) :
    IsBoundBy i.groups (front ++ ofResources .explicitBinding i) where
  nodup := by
    rw [List.filterMap_append, List.filterMap_eq_nil_iff.2 hfront]
    exact nodup_bindingPoints hsets hlayout
  text _ _ _ _ h := exists_text_eq h
  texture tier slot type name := by
    have hnot : .texture tier slot type name ∉ front := fun h => nomatch hfront _ h
    simp only [List.mem_append, hnot, false_or, mem_ofResources, mem_ofTexture]
    simp [ofLayout]
  sampler tier slot name := by
    have hnot : .sampler tier slot name ∉ front := fun h => nomatch hfront _ h
    simp only [List.mem_append, hnot, false_or, mem_ofResources, mem_ofTexture]
    simp [ofLayout]

theorem isBoundBy_vertexBlock (hsets : i.tiers.IsSupplied)
    (hlayout : i.layout.textures = .ofTextures 0 ts) :
    IsBoundBy i.groups (i.vertexBlock .explicitBinding) := by
  refine isBoundBy_append hsets hlayout fun item hitem => ?_
  simp only [List.mem_append, List.mem_flatMap, List.mem_map, List.mem_singleton] at hitem
  rcases hitem with ((⟨a, -, ha⟩ | rfl) | ⟨v, -, rfl⟩) | rfl
  · rcases mem_ofAttribute ha with ⟨type, name, rfl⟩ | ⟨type, source, rfl⟩ <;> rfl
  all_goals rfl

theorem isBoundBy_fragmentBlock (hsets : i.tiers.IsSupplied)
    (hlayout : i.layout.textures = .ofTextures 0 ts) :
    IsBoundBy i.groups (i.fragmentBlock .explicitBinding) := by
  refine isBoundBy_append hsets hlayout fun item hitem => ?_
  simp only [List.mem_append, List.mem_map, List.mem_singleton] at hitem
  rcases hitem with ((⟨v, -, rfl⟩ | rfl) | ⟨o, -, rfl⟩) | rfl <;> rfl

end Interface

/-! ## What draws bind -/

theorem Material.bindGroup_mem_bindCommands {m : Material} {p : Program} {tier : Tier}
    {g : BindGroup} : .bindGroup tier g ∈ m.bindCommands p ↔
      tier = .material ∧ m.resources.textures = some g := by
  simp only [bindCommands, Parameters.commands, List.mem_cons, List.mem_append, List.mem_map,
    Option.mem_toList, Option.map_eq_some_iff]
  constructor
  · rintro ((h | ⟨parameter, -, h⟩) | ⟨g', hg, h⟩)
    · cases h
    · cases h
    · cases h
      exact ⟨rfl, hg⟩
  · rintro ⟨rfl, hg⟩
    exact .inr ⟨g, hg, rfl⟩

theorem Instance.bindGroup_mem_objectCommands {i : Instance} {p : Program} {b : Std140.Buffer}
    {tier : Tier} {g : BindGroup} : .bindGroup tier g ∈ i.objectCommands p b ↔
      tier = .object ∧ g = p.layout.textures ∧ g.textures ≠ [] := by
  simp only [objectCommands, List.mem_append, List.mem_ite_nil_right, List.mem_ite_nil_left,
    List.mem_cons, List.not_mem_nil, or_false, reduceCtorEq, and_false, false_or,
    Command.bindGroup.injEq]
  constructor
  · rintro ⟨htextures, rfl, rfl⟩
    exact ⟨rfl, rfl, htextures⟩
  · rintro ⟨rfl, rfl, htextures⟩
    exact ⟨htextures, rfl, rfl⟩

/-- A draw with the material of a supplied set binds the groups of its tier and of the object that
have textures. -/
theorem Interface.bindGroup_mem_iff {i : Interface} (hsets : i.tiers.IsSupplied) {m : Material}
    (hm : m.resources ∈ i.tiers) (hmaterial : m.resources.tier = .material) {p : Program}
    (hp : p.layout = i.layout) {inst : Instance} {b : Std140.Buffer} {tier : Tier}
    {g : BindGroup} : .bindGroup tier g ∈ m.bindCommands p ++ inst.objectCommands p b ↔
      tier ≠ .view ∧ g.textures ≠ [] ∧ (tier, g) ∈ i.groups := by
  rw [List.mem_append, Material.bindGroup_mem_bindCommands, Instance.bindGroup_mem_objectCommands,
    mem_groups, hp]
  constructor
  · rintro (⟨rfl, hg⟩ | ⟨rfl, hg, htextures⟩)
    · exact ⟨by decide, hsets.textures_ne_nil hm hg, .inl ⟨_, hm, hg, hmaterial⟩⟩
    · exact ⟨by decide, htextures, .inr ⟨rfl, hg⟩⟩
  · rintro ⟨hview, htextures, ⟨s, hs, hg, rfl⟩ | ⟨rfl, hg⟩⟩
    · have htier : s.tier = .material := (hsets.among s hs).resolve_left hview
      obtain rfl := List.inj_on_of_nodup_map hsets.distinct hs hm (htier.trans hmaterial.symm)
      exact .inl ⟨htier, hg⟩
    · exact .inr ⟨rfl, hg, htextures⟩

/-- Programs with explicit bindings declare every resource at a slot of its own, the textures and
samplers where draws bind them. -/
theorem Program.declaresBound {d : Definition} {o : Surroundings} {p : Program}
    (hsets : o.tiers.IsSupplied) (h : build .explicitBinding d o = .ok p) :
    ∃ s, LinkedStages.ofDefinition d o = .ok s ∧ p = s.program d.name .explicitBinding ∧
      s.interface.tiers = o.tiers ∧
      BlockItem.IsBoundBy s.interface.groups (s.interface.vertexBlock .explicitBinding) ∧
      BlockItem.IsBoundBy s.interface.groups (s.interface.fragmentBlock .explicitBinding) ∧
      ∀ (m : Material) (i : Instance) (b : Std140.Buffer) (tier : Tier) (g : BindGroup),
        m.resources ∈ o.tiers → m.resources.tier = .material →
          (.bindGroup tier g ∈ m.bindCommands p ++ i.objectCommands p b ↔
            tier ≠ .view ∧ g.textures ≠ [] ∧ (tier, g) ∈ s.interface.groups) := by
  obtain ⟨s, hs, rfl⟩ := exists_of_build_eq_ok h
  obtain ⟨outs, hlinks⟩ := LinkedStages.exists_links hs
  obtain ⟨ts, hlayout⟩ := ObjectLayout.exists_textures_eq hlinks.layout
  have hsupplied : s.interface.tiers.IsSupplied := hlinks.tiers ▸ hsets
  refine ⟨s, hs, rfl, hlinks.tiers, Interface.isBoundBy_vertexBlock hsupplied hlayout,
    Interface.isBoundBy_fragmentBlock hsupplied hlayout, fun m i b tier g hm hmaterial => ?_⟩
  rw [← hlinks.tiers] at hm
  exact Interface.bindGroup_mem_iff hsupplied hm hmaterial rfl

/-- A view with a buffer in front of its textures, and a material without one. -/
def ResourceTiers.layered : ResourceTiers :=
  [.of .view (some (.ofFields [⟨"time", .scalar .float, 0⟩]))
      [⟨"cascades", ⟨true, true⟩, .flatArray, .depth, true⟩,
        ⟨"noise", ⟨true, true⟩, .flat, .unfilterableFloat, false⟩],
    .of .material none [⟨"albedo", ⟨true, true⟩, .flat, .float, true⟩]]

theorem ResourceTiers.isSupplied_layered : layered.IsSupplied where
  made s hs := by
    rcases List.mem_cons.1 hs with rfl | hs
    · exact ⟨_, _, rfl⟩
    · obtain rfl := List.mem_singleton.1 hs
      exact ⟨_, _, rfl⟩
  distinct := by decide
  among := by decide

theorem Program.declaresBound_layered :
    let d : Definition := ⟨"layered", "uniform sampler2D mask;\nvoid main() {}\n", "", .empty⟩
    let o : Surroundings := ⟨.layered, .empty⟩
    let m : Material := { definition := d, resources := ResourceTiers.layered[1] }
    o.tiers.IsSupplied ∧ m.resources ∈ o.tiers ∧ m.resources.tier = .material ∧
      ∃ p s, build .explicitBinding d o = .ok p ∧ LinkedStages.ofDefinition d o = .ok s ∧
        (s.interface.vertexBlock .explicitBinding).filterMap (·.bindingPoint?) =
          [(0, 0), (3, 0), (0, 1), (0, 2), (0, 3), (1, 0), (1, 1), (2, 0), (2, 1)] ∧
        BlockItem.IsBoundBy s.interface.groups (s.interface.vertexBlock .explicitBinding) ∧
        ∀ (i : Instance) (b : Std140.Buffer) (tier : Tier) (g : BindGroup),
          .bindGroup tier g ∈ m.bindCommands p ++ i.objectCommands p b ↔
            tier ≠ .view ∧ g.textures ≠ [] ∧ (tier, g) ∈ s.interface.groups := by
  intro d o m
  have hm : m.resources ∈ o.tiers := List.getElem_mem _
  obtain ⟨s, hs, hpoints⟩ := map_eq_ok.1 (show (fun s => (s.interface.vertexBlock
      .explicitBinding).filterMap (·.bindingPoint?)) <$> LinkedStages.ofDefinition d o =
        .ok [(0, 0), (3, 0), (0, 1), (0, 2), (0, 3), (1, 0), (1, 1), (2, 0), (2, 1)] by
    decide +kernel)
  obtain ⟨s', hs', -, -, hvertex, -, hdraws⟩ :=
    declaresBound ResourceTiers.isSupplied_layered (build_eq_ok hs)
  obtain rfl : s = s' := Except.ok.inj (hs.symm.trans hs')
  exact ⟨ResourceTiers.isSupplied_layered, hm, rfl, _, s, build_eq_ok hs, hs, hpoints, hvertex,
    fun i b tier g => hdraws m i b tier g hm rfl⟩

end ForwardShading
