import MetricEngine.Program.Arguments

/-!
What argument readers ensure of the values that they read, whatever arguments they are given. Periods are
whole milliseconds and not longer than the longest period.
-/
namespace MetricEngine

namespace Period

/-- A span of whole milliseconds that is not longer than the longest period. -/
def InBounds (span : Span) : Prop :=
  ∃ millis, millis ≤ longestMillis ∧ span = .ofMillis millis

theorem withinBounds_ok {millis : Int} {span : Span} (ok : withinBounds millis = .ok span) :
    InBounds span := by
  rw [withinBounds] at ok
  split at ok
  next short => exact ⟨millis, short, (Except.ok.inj ok).symm⟩
  next => simp at ok

theorem ofSeconds_ok {seconds : Int} {span : Span} (ok : ofSeconds seconds = .ok span) :
    InBounds span := by
  rw [ofSeconds] at ok
  split at ok
  · simp at ok
  · exact withinBounds_ok ok

theorem ofUnit_ok {text : String} {s : List Char} {span : Span} (ok : ofUnit text s = .ok span) :
    InBounds span := by
  simp only [ofUnit] at ok
  split at ok
  · simp at ok
  · split at ok
    · simp at ok
    · split at ok
      · simp at ok
      · split at ok
        · simp at ok
        · exact withinBounds_ok ok

theorem ofIso_ok {text : String} {s : List Char} {span : Span} (ok : ofIso text s = .ok span) :
    InBounds span := by
  simp only [ofIso] at ok
  simp only [bind, Except.bind, throw, throwThe, MonadExceptOf.throw] at ok
  repeat' split at ok
  all_goals first
    | exact withinBounds_ok ok
    | simp at ok

theorem ofString_ok {text : String} {span : Span} (ok : ofString text = .ok span) : InBounds span := by
  rw [ofString] at ok
  split at ok
  · simp at ok
  · split at ok
    · exact ofIso_ok ok
    · split at ok
      · exact ofSeconds_ok ok
      · exact ofUnit_ok ok

theorem ofJson_ok {json : Json} {span : Span} (ok : ofJson json = .ok span) : InBounds span := by
  unfold ofJson at ok
  split at ok
  · split at ok
    · exact ofSeconds_ok ok
    · simp at ok
  · simp at ok
  · exact ofString_ok ok
  · simp at ok

end Period

namespace ArgumentReader
variable {α β : Type} {reader : ArgumentReader α} {post : α → Prop}

/-- Every value that a reader returns has some property. -/
def Ensures (reader : ArgumentReader α) (post : α → Prop) : Prop :=
  ∀ before value after, (ExceptT.run reader).run before = (.ok value, after) → post value

namespace Ensures

theorem pure {value : α} (holds : post value) : Ensures (pure value) post := by
  rintro before value' after read
  obtain ⟨same, _⟩ := Prod.mk.inj read
  exact Except.ok.inj same ▸ holds

theorem refuse {field : String} {fault : ArgumentFault} :
    Ensures (ArgumentReader.refuse field fault : ArgumentReader α) post := by
  rintro before value after read
  obtain ⟨same, _⟩ := Prod.mk.inj read
  simp at same

theorem throw {error : BuildError} : Ensures (throw error : ArgumentReader α) post := by
  rintro before value after read
  obtain ⟨same, _⟩ := Prod.mk.inj read
  simp at same

theorem bind {next : α → ArgumentReader β} {final : β → Prop} (first : Ensures reader post)
    (rest : ∀ value, post value → Ensures (next value) final) : Ensures (reader >>= next) final := by
  rintro before value after read
  rw [ExceptT.run_bind, StateT.run_bind] at read
  cases run : (ExceptT.run reader).run before with
  | mk outcome between =>
    rw [run] at read
    cases outcome with
    | error error => exact absurd (Prod.mk.inj read).1 (by simp)
    | ok middle => exact rest middle (first before middle between run) between value after read

theorem any : Ensures reader fun _ => True :=
  fun _ _ _ _ => trivial

theorem on {given : Table Json} {value : α} {arguments : Arguments} (ensures : Ensures reader post)
    (read : reader.on given = (.ok value, arguments)) : post value :=
  ensures _ value arguments read

/-- A field that is decoded has the properties of its decoder. -/
theorem optional {decode : Json → Except ArgumentFault α} {field : String}
    (decodes : ∀ json value, decode json = .ok value → post value) :
    Ensures (ArgumentReader.optional decode field) fun value => ∀ given, value = some given → post given := by
  refine .bind .any fun json _ => ?_
  split
  · exact .pure (by simp)
  · exact .pure (by simp)
  · split
    next value decoded =>
      refine .pure ?_
      rintro given same
      exact Option.some.inj same ▸ decodes _ value decoded
    next => exact .refuse

theorem period? (field : String) :
    Ensures (ArgumentReader.period? field) fun span =>
      ∀ given, span = some given → Period.InBounds given := by
  refine .optional fun json span decoded => ?_
  unfold ArgumentFault.decodePeriod Except.mapError at decoded
  split at decoded
  · simp at decoded
  next found => exact Except.ok.inj decoded ▸ Period.ofJson_ok found

end Ensures

/-- Mapping the value that is read leaves alone what is read. -/
theorem on_map (f : α → β) (reader : ArgumentReader α) (given : Table Json) :
    (f <$> reader).on given = ((reader.on given).1.map f, (reader.on given).2) := by
  unfold on
  rw [map_eq_pure_bind, ExceptT.run_bind, StateT.run_bind]
  cases (ExceptT.run reader).run (.ofTable given) with
  | mk outcome after => cases outcome <;> rfl

end ArgumentReader
end MetricEngine
