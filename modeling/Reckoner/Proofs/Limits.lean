-- The laws of limits. Limits only ever take values away, up to the highest ones, where a
-- bound overflows when it is scaled and is still compared as the number that it is.
import Reckoner.Proofs.Acceptance

namespace Reckoner

namespace Settings

/-- The numbers are written alike, and no limit is lower. -/
structure Allows (settings' settings : Settings) : Prop where
  separators : settings'.separators = settings.separators
  fractionDigits : settings'.fractionDigits = settings.fractionDigits
  maxLength : settings.maxLength ≤ settings'.maxLength
  operandBound : settings.operandBound ≤ settings'.operandBound
  resultBound : settings.resultBound ≤ settings'.resultBound

namespace Allows

variable {settings settings' : Settings} {input : String} {left right : Numeral}
  {operator : Operator} {o : Operation} {a : Amount}

/-! ## Stages -/

theorem writes (h : settings'.Allows settings)
    (hwrites : settings.Writes input left operator right) :
    settings'.Writes input left operator right :=
  ⟨le_trans hwrites.length h.maxLength, h.separators ▸ hwrites.cut⟩

theorem reach_le (h : settings'.Allows settings) : settings.reach ≤ settings'.reach :=
  min_le_min_right _ (by exact_mod_cast h.operandBound)

theorem refusal?_eq_none (h : settings'.Allows settings)
    (hnone : settings.refusal? left right = none) : settings'.refusal? left right = none := by
  obtain ⟨⟨hleft, hleft'⟩, hright, hright'⟩ := refusal?_eq_none_iff.mp hnone
  rw [refusal?_eq_none_iff, h.fractionDigits]
  exact ⟨⟨hleft, le_trans hleft' h.reach_le⟩, hright, le_trans hright' h.reach_le⟩

theorem accept (h : settings'.Allows settings) (hvalid : settings.Valid)
    (hvalid' : settings'.Valid) (haccept : settings.accept input = .ok o) :
    settings'.accept input = .ok o := by
  obtain ⟨left, right, hwrites, hnone, ha, hb⟩ := exists_gives_of_accept hvalid haccept
  obtain ⟨a, b, hok, ha', hb'⟩ :=
    exists_accept_of_writes hvalid' (h.writes hwrites) (h.refusal?_eq_none hnone)
  have hleft : a = o.left := Fixed.value_inj.mp (ha'.value.trans ha.value.symm)
  have hright : b = o.right := Fixed.value_inj.mp (hb'.value.trans hb.value.symm)
  rw [hok, hleft, hright]

theorem finish (h : settings'.Allows settings) (hvalid : settings.Valid)
    (hvalid' : settings'.Valid) (hfinish : settings.finish o = .ok a) :
    settings'.finish o = .ok a := by
  obtain ⟨v, happly, hbound, hround⟩ := (finish_eq_ok_iff hvalid).mp hfinish
  have hbounds : (settings.resultBound : ℚ) ≤ settings'.resultBound := by
    exact_mod_cast h.resultBound
  rw [finish_eq_ok_iff hvalid', h.fractionDigits]
  exact ⟨v, happly, le_trans hbound hbounds, hround⟩

end Allows

end Settings

/-- What has a value has the same value under higher limits. -/
theorem higher_limits_keep_every_value (e e' : Evaluator) (h : e'.settings.Allows e.settings)
    (input : String) (value : Amount) (hvalue : e.evaluate input = .success value) :
    e'.evaluate input = .success value := by
  obtain ⟨o, haccept, hfinish⟩ := Evaluator.exists_of_success hvalue
  exact Evaluator.evaluate_of_value (h.accept e.valid e'.valid haccept)
    (h.finish e.valid e'.valid hfinish)

/-- The largest result of the standard limits, under limits that overflow when they are scaled. -/
theorem higher_limits_keep_one_billion :
    Evaluator.unbounded.settings.Allows Evaluator.standard.settings ∧
      Evaluator.standard.evaluate "1000000 / -0.001" = .success ⟨-10000000000000, by decide⟩ ∧
      Evaluator.unbounded.evaluate "1000000 / -0.001" = .success ⟨-10000000000000, by decide⟩ := by
  have hallows : Evaluator.unbounded.settings.Allows Evaluator.standard.settings :=
    ⟨rfl, rfl, by decide, by decide, by decide⟩
  have hvalue : Evaluator.standard.evaluate "1000000 / -0.001" =
      .success ⟨-10000000000000, by decide⟩ := by
    decide +kernel
  exact ⟨hallows, hvalue, higher_limits_keep_every_value _ _ hallows _ _ hvalue⟩

end Reckoner
