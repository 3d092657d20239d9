import ForwardShading.Proofs.Draw.SharedCache
import ForwardShading.Proofs.Draw.Variants
import ForwardShading.Proofs.Program.Basic

/-!
# Light sets that share a key

The fingerprint of a light set runs its lists of lights together.  Lights that stand in the list of
their kind can be put back (`SortedLights.ByKind.toldApart`), but lights that do not may leave two sets
with the same fingerprint and with different numbers of lights.  Then the second of two preparations
gets the program of the first (`Preparation.toldApart_of_answers`).  So preparations over one cache
answer with the programs of their own descriptions exactly where their light sets are told apart
(`Preparation.answers_runAll_iff`).
-/

namespace ForwardShading

open Glsl (Define Stage)

/-! ## The numbers of lights in a text -/

/-- The define lines of a draw tell the numbers of its lights. -/
theorem Environment.counts_eq_of_text_eq {e : Environment} (he : e.clustered = false)
    {s t : SortedLights} {pass : ShaderPass}
    (h : (e.defines s pass 0).flatMap Define.text = (e.defines t pass 0).flatMap Define.text) :
    s.counts = t.counts := by
  have hplain : ∀ lights : SortedLights, ∀ d ∈ e.defines lights pass 0, '\n' ∉ d.line :=
    fun lights d hd =>
      (e.isPlain_of_mem_defines lights pass 0 hd).notMem_line (by decide) (by decide)
  have hlines := Define.map_line_eq_of_flatMap_text_eq (hplain s) (hplain t) h
  simp only [defines, he, Bool.false_eq_true, if_false, if_true, List.append_nil, List.cons_append,
    List.nil_append, List.map_cons, List.map_nil, List.cons.injEq, and_true, true_and] at hlines
  obtain ⟨hdirectional, homni, hspot⟩ := hlines
  rw [SortedLights.counts, SortedLights.counts, Define.line_toString_inj hdirectional,
    Define.line_toString_inj homni, Define.line_toString_inj hspot]

/-- A text that declares nothing behind some define declares nothing behind any plain ones, and is left
as it is. -/
theorem Glsl.Define.ofSource_insertAll {source : String} {d : Define} (hd : d.IsPlain)
    (h : Stage.declarations <$> Stage.ofSource (insertAll [d] source) = .ok []) {ds : List Define}
    (hne : ds ≠ []) (hds : ∀ d ∈ ds, d.IsPlain) :
    Stage.ofSource (insertAll ds source) = .ok ⟨insertAll ds source, []⟩ := by
  have hcommon : ∀ d ∈ ([] : List Define), '\n' ∉ d.line := nofun
  obtain ⟨result, hresult⟩ := exists_declarations_insertAll hcommon source
  have hone := hresult [d] (List.cons_ne_nil _ _) (by simpa using hd)
  have hall := hresult ds hne hds
  rw [List.nil_append, ← Stage.declarations_ofSource] at hone hall
  obtain ⟨stage, hstage, hnone⟩ := map_eq_ok.1 (hall.trans (hone.symm.trans h))
  have hresidual := Stage.residual_eq_of_declarations_eq_nil hstage hnone
  obtain ⟨residual, declarations⟩ := stage
  rw [hstage, ← hresidual, ← hnone]

/-! ## Plain preparations

Two of them differ in their lights alone.  Their programs have the define lines of a draw in their
texts, so they are the same only where the numbers of lights are. -/

namespace Preparation

/-- A version line with a marker, which keeps the declarations in front of what is inserted behind the
line. -/
def markedVersion : String :=
  "#version 450 @@@\n"

/-- The instance that the plain preparations draw. -/
def plainInstance : Instance where
  material := ⟨0⟩
  mesh := { vertexBuffer := ⟨1⟩ }

/-- A preparation of one instance, the program of which declares nothing, for some lights. -/
def plain (lights : SortedLights) : Preparation where
  environment := { view := .empty .view }
  materials _ := { definition := ⟨"plain", markedVersion, "", .empty⟩ }
  instances := [plainInstance]
  lights
  pass := .forward

variable {dialect : Dialect} {lights s t : SortedLights}

/-- The defines with which a plain preparation specialises its program. -/
def plainDefines (lights : SortedLights) : List Define :=
  (plain lights).environment.defines lights .forward 0

theorem plainDefines_ne_nil : plainDefines lights ≠ [] :=
  Environment.defines_ne_nil _ _ _ _

theorem ofSource_plain {source : String} (h : source = markedVersion ∨ source = "") :
    Stage.ofSource (Define.insertAll (plainDefines lights) source) =
      .ok ⟨Define.insertAll (plainDefines lights) source, []⟩ := by
  have hnone : Stage.declarations <$> Stage.ofSource (Define.insertAll [⟨"A", ""⟩] source) =
      .ok [] := by
    rcases h with rfl | rfl <;> decide +kernel
  exact Define.ofSource_insertAll (by decide) hnone plainDefines_ne_nil
    fun d => Environment.isPlain_of_mem_defines _ _ _ _

theorem toList_splice_plain (block : String) :
    (Glsl.splice (Define.insertAll (plainDefines lights) markedVersion) block).toList =
      "#version 450 ".toList ++ block.toList ++ '\n' :: (plainDefines lights).flatMap Define.text := by
  have htext : (Define.insertAll (plainDefines lights) markedVersion).toList =
      markedVersion.toList ++ (plainDefines lights).flatMap Define.text := by
    have hsplit : Glsl.splitVersion markedVersion.toList = (markedVersion.toList, []) := by decide
    rw [Define.toList_insertAll plainDefines_ne_nil, Glsl.insertAfterVersion, hsplit]
    exact List.append_nil _
  have hbreak : Text.breakOn Glsl.marker markedVersion.toList =
      some ("#version 450 ".toList, ['\n']) := by decide
  rw [Glsl.splice, String.toList_ofList, htext, Text.breakOn_append_of_eq_some (by decide) hbreak]
  rfl

theorem describe_plain : (plain lights).describe plainInstance =
    (⟨"plain", Define.insertAll (plainDefines lights) markedVersion,
      Define.insertAll (plainDefines lights) "", .empty⟩, ⟨[.empty .view, .empty .material], .empty⟩) :=
  rfl

/-- Programs of plain preparations differ in the lines of their defines. -/
theorem exists_build_plain (dialect : Dialect) :
    ∃ front : List Char, ∀ lights : SortedLights, ∃ p,
      Program.build dialect ((plain lights).describe plainInstance).1
          ((plain lights).describe plainInstance).2 = .ok p ∧
        p.vertex.toList = front ++ '\n' :: (plainDefines lights).flatMap Define.text := by
  -- The interface does not depend on the texts, since they declare nothing.
  obtain ⟨i, hi⟩ : ∃ i, Interface.link ⟨"plain", "", "", .empty⟩
      ⟨[.empty .view, .empty .material], .empty⟩ ⟨"", []⟩ ⟨"", []⟩ = .ok i := ⟨_, rfl⟩
  refine ⟨"#version 450 ".toList ++ (BlockItem.blockText (i.vertexBlock dialect)).toList,
    fun lights => ?_⟩
  rw [describe_plain]
  generalize hvertex : Define.insertAll (plainDefines lights) markedVersion = vertex
  generalize hfragment : Define.insertAll (plainDefines lights) "" = fragment
  have hlinked : LinkedStages.ofDefinition ⟨"plain", vertex, fragment, .empty⟩
      ⟨[.empty .view, .empty .material], .empty⟩ = .ok ⟨⟨vertex, []⟩, ⟨fragment, []⟩, i⟩ := by
    have hv : Stage.ofSource vertex = .ok ⟨vertex, []⟩ := hvertex ▸ ofSource_plain (.inl rfl)
    have hf : Stage.ofSource fragment = .ok ⟨fragment, []⟩ := hfragment ▸ ofSource_plain (.inr rfl)
    have hlink : Interface.link ⟨"plain", vertex, fragment, .empty⟩
        ⟨[.empty .view, .empty .material], .empty⟩ ⟨vertex, []⟩ ⟨fragment, []⟩ = .ok i := by
      rw [← hi]
      exact Interface.link_congr rfl rfl rfl
    exact bind_eq_ok.2 ⟨_, hv, bind_eq_ok.2 ⟨_, hf, bind_eq_ok.2 ⟨i, hlink, rfl⟩⟩⟩
  refine ⟨_, Program.build_eq_ok hlinked, ?_⟩
  show (Glsl.splice vertex (BlockItem.blockText (i.vertexBlock dialect))).toList = _
  rw [← hvertex, toList_splice_plain]

/-! ## One preparation behind another -/

/-- The key of the plain instance. -/
def plainKey (lights : SortedLights) : VariantKey :=
  (plain lights).environment.key (plain lights).materials lights .forward plainInstance

/-- A plain preparation makes one call, and asks for one program. -/
theorem run_plain (lights : SortedLights) (cache : VariantCache VariantKey) :
    let r := cache.getOrBuild (plainKey lights) fun _ => (plain lights).describe plainInstance
    ((plain lights).run cache).1.calls.map (fun c => (c.object, c.variant)) = [(plainInstance, r.1)] ∧
      ((plain lights).run cache).2 = r.2 :=
  ⟨rfl, rfl⟩

/-- A plain preparation behind one with the same key gets the program of that one. -/
theorem exists_call_of_key_eq (h : plainKey s = plainKey t) (dialect : Dialect) :
    ∃ c ∈ ((plain t).run ((plain s).run (.empty dialect)).2).1.calls, c.object = plainInstance ∧
      c.variant.program = Program.build dialect ((plain s).describe plainInstance).1
        ((plain s).describe plainInstance).2 := by
  obtain ⟨hcalls, -⟩ := run_plain t ((plain s).run (.empty dialect)).2
  obtain ⟨-, hcache⟩ := run_plain s (.empty dialect)
  have hkept := VariantCache.get?_getOrBuild (.empty dialect) (plainKey s) fun _ =>
    (plain s).describe plainInstance
  rw [hcache, ← h, VariantCache.fst_getOrBuild_of_get? hkept] at hcalls
  obtain ⟨c, hc, heq⟩ := List.mem_map.1 (hcalls ▸ List.mem_singleton_self _)
  obtain ⟨hobject, hvariant⟩ := Prod.mk.inj heq
  exact ⟨c, hcache ▸ hc, hobject, by rw [hvariant]; rfl⟩

/-- Where two light sets share a key, the second of two preparations gets the program of the first.  So
if it is the program of its own description, the light sets are told apart. -/
theorem toldApart_of_answers (h : List.Forall₂ (Answers dialect) [plain s, plain t]
    (runAll (.empty dialect) [plain s, plain t]).1) : s.ToldApart t := by
  intro hfingerprint
  have hkey : plainKey s = plainKey t := by
    simp only [plainKey, Environment.key, plain, hfingerprint]
  obtain ⟨c, hc, hobject, hprogram⟩ := exists_call_of_key_eq hkey dialect
  have hanswers : (plain t).Answers dialect ((plain t).run ((plain s).run (.empty dialect)).2).1 :=
    (List.forall₂_cons.1 (List.forall₂_cons.1 h).2).1
  have hown := hanswers.program c hc
  obtain ⟨front, hfront⟩ := exists_build_plain dialect
  obtain ⟨p, hp, hvertex⟩ := hfront s
  obtain ⟨q, hq, hvertex'⟩ := hfront t
  rw [hprogram, hobject, hp, hq] at hown
  obtain rfl := Except.ok.inj hown
  have hlines := List.append_cancel_left (hvertex.symm.trans hvertex')
  exact Environment.counts_eq_of_text_eq rfl (List.cons.inj hlines).2

/-! ## Families of light sets -/

/-- Over one cache that begins empty, preparations for any environments and layers with light sets that
are split by kind, as they are when they are made, give every call the program, or the error, of its
own description.  Of the families of light sets these are not the only ones for which this holds: it
holds exactly for those in which light sets with the same fingerprint have the same number of lights of
each kind. -/
theorem answers_runAll_iff (dialect : Dialect) :
    (∀ camera ls, (SortedLights.ofLights camera ls).ByKind) ∧
    (∀ ps : List Preparation, (∀ p ∈ ps, p.lights.ByKind) →
      List.Forall₂ (Answers dialect) ps (runAll (.empty dialect) ps).1) ∧
    ∀ family : SortedLights → Prop,
      (∀ ps : List Preparation, (∀ p ∈ ps, family p.lights) →
        List.Forall₂ (Answers dialect) ps (runAll (.empty dialect) ps).1) ↔
      ∀ s t, family s → family t → s.fingerprint false = t.fingerprint false →
        s.counts = t.counts := by
  have hanswers : ∀ family : SortedLights → Prop, SortedLights.AllToldApart family →
      ∀ ps : List Preparation, (∀ p ∈ ps, family p.lights) →
        List.Forall₂ (Answers dialect) ps (runAll (.empty dialect) ps).1 :=
    fun family hfamily ps hps =>
      answers_runAll hfamily (VariantCache.builtFrom_empty dialect) hps
  refine ⟨SortedLights.byKind_ofLights, hanswers _ SortedLights.allToldApart_byKind,
    fun family => ⟨fun h s t hs ht => ?_, hanswers family⟩⟩
  refine toldApart_of_answers (h [plain s, plain t] fun p hp => ?_)
  rcases List.mem_pair.1 hp with rfl | rfl
  · exact hs
  · exact ht

/-- A sun alone, a lamp alone, and both of them are three programs. -/
theorem answers_runAll_iff_sunAndLamp :
    let sun : Light := { kind := .directional }
    let lamp : Light := { kind := .omni }
    let ps := [plain ⟨[sun], [], []⟩, plain ⟨[], [lamp], []⟩, plain ⟨[sun], [lamp], []⟩]
    (∀ p ∈ ps, p.lights.ByKind) ∧
      List.Forall₂ (Answers .explicitBinding) ps (runAll (.empty .explicitBinding) ps).1 ∧
      (runAll (.empty .explicitBinding) ps).2.size = 3 := by
  intro sun lamp ps
  have hkinds : ∀ p ∈ ps, p.lights.ByKind := by
    simp only [ps, List.forall_mem_cons]
    exact ⟨⟨by decide, by decide, by decide⟩, ⟨by decide, by decide, by decide⟩,
      ⟨by decide, by decide, by decide⟩, nofun⟩
  obtain ⟨-, hanswers, -⟩ := answers_runAll_iff .explicitBinding
  exact ⟨hkinds, hanswers ps hkinds, by decide +kernel⟩

/-- A sun that stands in the list of the omni lights has the key of one that stands in its own, and gets
the program of that one. -/
theorem not_answers_runAll_misfiled :
    let sun : Light := { kind := .directional }
    let ps := [plain ⟨[sun], [], []⟩, plain ⟨[], [sun], []⟩]
    ¬ List.Forall₂ (Answers .explicitBinding) ps (runAll (.empty .explicitBinding) ps).1 :=
  fun h => absurd (toldApart_of_answers h rfl) (by decide)

end Preparation

end ForwardShading
