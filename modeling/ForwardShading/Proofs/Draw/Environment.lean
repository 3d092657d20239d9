import ForwardShading.Draw.Environment
import ForwardShading.Proofs.Light.Order
import ForwardShading.Proofs.Program.VariantCache

/-!
# Keys determine descriptions

A program is kept under a key and built from a description.  Everything that the description reads
can be recovered from the key (`Environment.describe_eq_of_key_eq`): the numbers of lights from the
fingerprints of the lights, where these tell them apart, all else from the parts of the key as they
stand.
-/

namespace ForwardShading

theorem Material.variantDefinition_eq_of_fingerprint_eq {m m' : Material}
    (h : m.fingerprint = m'.fingerprint) (extra : List Glsl.Define) :
    m.variantDefinition extra = m'.variantDefinition extra := by
  simp only [Material.fingerprint, MaterialFingerprint.mk.injEq] at h
  simp only [Material.variantDefinition, Material.defineLines, h]

namespace Environment

variable {e e' : Environment} {materials materials' : MaterialTable} {lights lights' : SortedLights}
  {pass pass' : ShaderPass} {i i' : Instance}

theorem defines_eq_of_fingerprint_eq (hl : lights.ToldApart lights')
    (h : lights.fingerprint e.clustered = lights'.fingerprint e.clustered) (flags : UInt64) :
    e.defines lights pass flags = e.defines lights' pass flags := by
  unfold defines
  cases hc : e.clustered with
  | true =>
    rw [hc] at h
    rw [SortedLights.directional_length_eq_of_fingerprint h]
    rfl
  | false =>
    rw [hc] at h
    have hcounts := hl h
    simp only [SortedLights.counts, Prod.mk.injEq] at hcounts
    rw [hcounts.1, hcounts.2.1, hcounts.2.2]

/-- Draws with the same key have the same description, whatever else tells them apart. -/
theorem describe_eq_of_key_eq (hl : lights.ToldApart lights')
    (h : e.key materials lights pass i = e'.key materials' lights' pass' i') :
    e.describe materials lights pass i = e'.describe materials' lights' pass' i' := by
  simp only [key, VariantKey.mk.injEq] at h
  obtain ⟨rfl, hlights, hm, hflags, rfl⟩ := h
  have hr : (materials i.material).resources = (materials' i'.material).resources :=
    congrArg MaterialFingerprint.resources hm
  simp only [describe]
  rw [hflags, defines_eq_of_fingerprint_eq hl hlights,
    Material.variantDefinition_eq_of_fingerprint_eq hm, hr]

variable {family : SortedLights → Prop}

/-- A description goes with the key of a draw that has both, with lights of a family. -/
def Describes (family : SortedLights → Prop) (k : VariantKey) (d : Definition × Surroundings) :
    Prop :=
  ∃ (e : Environment) (materials : MaterialTable) (lights : SortedLights) (pass : ShaderPass)
    (i : Instance), family lights ∧ k = e.key materials lights pass i ∧
      d = e.describe materials lights pass i

theorem describes_key (e : Environment) (materials : MaterialTable) (hl : family lights)
    (pass : ShaderPass) (i : Instance) :
    Describes family (e.key materials lights pass i) (e.describe materials lights pass i) :=
  ⟨e, materials, lights, pass, i, hl, rfl, rfl⟩

theorem Describes.eq_describe (hfamily : SortedLights.AllToldApart family) (hl : family lights)
    {d : Definition × Surroundings} (h : Describes family (e.key materials lights pass i) d) :
    d = e.describe materials lights pass i := by
  obtain ⟨e', materials', lights', pass', i', hl', hk, rfl⟩ := h
  exact (describe_eq_of_key_eq (hfamily _ _ hl hl') hk).symm

end Environment

end ForwardShading
