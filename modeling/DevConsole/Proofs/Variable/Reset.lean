import DevConsole.Proofs.Number.RoundTrip
import DevConsole.Variable

/-!
# What a reset restores

A variable keeps of the value it started with only the text, and a reset reads that text. Whatever the
variable was set to in between (`reset_foldl_set`), it is then the variable that it was, unless it
started as an infinite number or NaN (`reset_restores`): their texts are words, which are read as zero.
-/

namespace DevConsole

open Number

/-! ### The same value -/

/-- The two numbers have one value, where the two zeros do and any NaN is as good as another. -/
def Number.Single.Same (x y : Single) : Prop :=
  x = y ∨ (x.magnitude = 0 ∧ y.magnitude = 0) ∨ (x.isNaN = true ∧ y.isNaN = true)

/-- The views show the same. -/
structure Views.Same (a b : Views) : Prop where
  string : a.string = b.string
  int : a.int = b.int
  float : a.float.Same b.float

theorem Views.Same.of_eq {a b : Views} (h : a = b) : a.Same b := by
  rw [h]
  exact ⟨rfl, rfl, .inl rfl⟩

/-- Zero is not the same as a number that is not finite. -/
theorem not_same_zero {x : Single} (h : x.isFinite = false) : ¬ Single.zero.Same x := by
  have hzero : Single.zero.magnitude = 0 := by decide
  have hlarge : x.magnitude ≠ 0 := by
    intro hx
    rw [Single.isFinite, hx] at h
    exact absurd h (by decide)
  rintro (rfl | ⟨-, hx⟩ | ⟨hnan, -⟩)
  · exact hlarge hzero
  · exact hlarge hx
  · exact absurd hnan (by decide)

namespace Value

/-- The value is no infinite number and not NaN. -/
def isFinite : Value → Bool
  | .float x => x.isFinite
  | _ => true

/-- **The text of a finite value gives back the value in all views.** -/
theorem views_text {d : Value} (h : d.isFinite = true) : (Value.text d.views.string).views = d.views := by
  cases d with
  | text s => rfl
  | int i => simp only [views, leadingInteger_integerText, leadingSingle_integerText]
  | float x => simp only [views, Single.leadingInteger_text h, Single.leadingSingle_text h]

/-- The text of any other value gives zero. -/
theorem not_same_views_text {d : Value} (h : d.isFinite = false) :
    ¬ (Value.text d.views.string).views.Same d.views := by
  cases d with
  | text s => cases h
  | int i => cases h
  | float x =>
    intro hsame
    have hfloat := hsame.float
    simp only [views, (Single.leading_text_of_not_finite h).1] at hfloat
    exact not_same_zero h hfloat

theorem same_views_text_iff (d : Value) :
    (Value.text d.views.string).views.Same d.views ↔ d.isFinite = true := by
  refine ⟨fun hsame => ?_, fun h => .of_eq (views_text h)⟩
  by_contra hd
  exact not_same_views_text (Bool.eq_false_iff.mpr hd) hsame

end Value

namespace Variable

/-- What a variable was set to does not matter to a reset. -/
theorem reset_foldl_set (v : Variable) (values : List Value) : (values.foldl set v).reset = v.reset := by
  induction values generalizing v with
  | nil => rfl
  | cons value values ih => exact ih (v.set value)

/-- **A reset restores a variable exactly if it started with a finite value**, whatever it was set to:
then nothing of it differs from the start, and else the views are not the same. In any case it counts
as not modified. -/
theorem reset_restores (name : String) (d : Value) (flags : Flags) (description : String)
    (values : List Value) :
    let v := ofValue name d flags description
    let restored := (values.foldl set v).reset
    restored.isModified = false ∧ (restored.views.Same v.views ↔ d.isFinite = true) ∧
      (restored = v ↔ d.isFinite = true) := by
  intro v restored
  have hrestored : restored = { v with views := (Value.text d.views.string).views } :=
    v.reset_foldl_set values
  rw [hrestored]
  refine ⟨bne_self_eq_false _, d.same_views_text_iff, fun heq => ?_, fun h => ?_⟩
  · exact d.same_views_text_iff.mp (.of_eq (congrArg views heq))
  · rw [Value.views_text h]
    rfl

end Variable

end DevConsole
