import Counted.Analytics.Measure

namespace Counted.Analytics

/-- What the collation of every locale keeps: a total order up to ties, none of them between the
digits of two numbers. -/
structure Collates (rt : Runtime) : Prop where
  ordered : Std.TransCmp rt.localeCompare
  digits : ∀ n m : ℕ, rt.localeCompare (natText n) (natText m) = .eq → n = m

namespace Collates

variable {rt : Runtime} (h : Collates rt)

include h

theorem swap (s t : JsString) : rt.localeCompare t s = (rt.localeCompare s t).swap :=
  h.ordered.eq_swap

theorem refl (s : JsString) : rt.localeCompare s s = .eq :=
  Ordering.eq_eq_of_eq_swap (h.swap s s)

end Collates

theorem nodeRuntime_isLE {s t : JsString} :
    (nodeRuntime.localeCompare s t).isLE = true ↔ JsString.le s t = true := by
  have hself : JsString.le s s = true := (JsString.le_total s s).elim id id
  simp only [nodeRuntime]
  split_ifs with heq hle
  · subst heq
    simpa using hself
  · simpa using hle
  · simpa using hle

theorem nodeRuntime_collates : Collates nodeRuntime where
  ordered :=
    { eq_swap := by
        intro s t
        simp only [nodeRuntime]
        by_cases heq : s = t
        · simp [heq]
        · rw [if_neg heq, if_neg (Ne.symm heq)]
          by_cases hle : JsString.le s t = true
          · have hnot : ¬ JsString.le t s = true := fun h ↦ heq (JsString.le_antisymm hle h)
            rw [if_pos hle, if_neg hnot]
            rfl
          · rw [if_neg hle, if_pos ((JsString.le_total s t).resolve_left hle)]
            rfl
      isLE_trans := by
        intro s t u hst htu
        rw [nodeRuntime_isLE] at *
        exact JsString.le_trans hst htu }
  digits n m h := by
    apply natText_injective
    simp only [nodeRuntime] at h
    split_ifs at h with heq
    exact heq

end Counted.Analytics
