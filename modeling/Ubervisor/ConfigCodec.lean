import Ubervisor.ConfigParsing
import Ubervisor.Restoring

/-! # The round trip of a configuration

`child_config_unserialize` after `child_config_serialize`: -1 is printed as no value at all, so
what comes back is the default of the field, which is -1 for most numbers only. -/
namespace UbervisorConfigCodec

open UbervisorValues
open UbervisorChildConfigs
open UbervisorStoredGroups
open UbervisorRestoring
open UbervisorConfigParsing
open UbervisorJsonC

section RoundTrip

variable {P : Platform} {obj : Json} {cc : ChildConfig}

theorem reread_zero {n : ℤ} (h : FitsInt n) : reread n 0 = n ↔ n ≠ -1 := by
  unfold reread
  by_cases hn : n = -1
  · simp [hn]
  · rw [if_pos hn]
    exact iff_of_true h hn

theorem intValue_fits {k : String} {default : ℤ} (h : FitsInt default) :
    FitsInt (intValue obj k default) := by
  unfold intValue
  split
  · exact clampInt_fits _
  · exact h

/-- What comes back from the object of a parsed record. -/
theorem rereadConfig_described :
    rereadConfig (described obj) = described obj ↔
      (described obj).ccError ≠ -1 ∧ (described obj).ccAge ≠ -1 := by
  have hunset : FitsInt (-1) := fitsInt_of_range (by decide) (by decide)
  have hzero : FitsInt 0 := fitsInt_of_range (by decide) (by decide)
  have herror : FitsInt (described obj).ccError := intValue_fits hzero
  have hage : FitsInt (described obj).ccAge := intValue_fits hzero
  rw [← reread_zero herror, ← reread_zero hage]
  constructor
  · intro h
    exact ⟨congrArg ChildConfig.ccError h, congrArg ChildConfig.ccAge h⟩
  · rintro ⟨he, ha⟩
    have hinstances : reread (described obj).ccInstances (-1) = (described obj).ccInstances :=
      reread_unset (intValue_fits hunset)
    have hstatus : reread (described obj).ccStatus (-1) = (described obj).ccStatus :=
      reread_unset (intValue_fits hunset)
    have hkillsig : reread (described obj).ccKillsig (-1) = (described obj).ccKillsig :=
      reread_unset (intValue_fits hunset)
    have huid : reread (described obj).ccUid (-1) = (described obj).ccUid :=
      reread_unset (intValue_fits hunset)
    have hgid : reread (described obj).ccGid (-1) = (described obj).ccGid :=
      reread_unset (intValue_fits hunset)
    unfold rereadConfig
    rw [hinstances, hstatus, hkillsig, huid, hgid, he, ha]
    rfl

/-- A parsed record comes back from its own text unless its error count or its age is -1. -/
theorem unserialize_serialize_iff (h : childConfigFromJson obj = some cc)
    (hjson : P.jsonParse (CStr.ofBytes (P.jsonPrint (childConfigSerialize cc))).bytes =
      some (childConfigSerialize cc)) :
    childConfigUnserialize P (CStr.ofBytes (P.jsonPrint (childConfigSerialize cc))) = some cc ↔
      cc.ccError ≠ -1 ∧ cc.ccAge ≠ -1 := by
  obtain ⟨-, rfl⟩ := fromJson_eq_some.mp h
  have hread : childConfigUnserialize P
      (CStr.ofBytes (P.jsonPrint (childConfigSerialize (described obj)))) =
        childConfigFromJson (childConfigSerialize (described obj)) := by
    unfold childConfigUnserialize
    rw [hjson]
    rfl
  rw [hread, fromJson_serialize, Option.some_inj]
  exact rereadConfig_described

def agedJson (age : ℤ) : Json :=
  .object [(text "name", .string (text "web")), (text "age", .int age)]

def agedConfig (age : ℤ) : ChildConfig :=
  { childConfigNew (CStr.ofBytes (text "web")) with ccAge := age }

def agedPlatform (age : ℤ) : Platform := sample [printed (childConfigSerialize (agedConfig age))]

/-- json-c reads back the text of this record. -/
theorem agedPlatform_parse (age : ℤ) (h : 0 ∉ printJson (childConfigSerialize (agedConfig age))) :
    (agedPlatform age).jsonParse (CStr.ofBytes
      ((agedPlatform age).jsonPrint (childConfigSerialize (agedConfig age)))).bytes =
        some (childConfigSerialize (agedConfig age)) := by
  have hprint : (agedPlatform age).jsonPrint (childConfigSerialize (agedConfig age)) =
      printJson (childConfigSerialize (agedConfig age)) := rfl
  rw [hprint, CStr.bytes_ofBytes h]
  simp [agedPlatform, sample, printed]

theorem agedConfig_returns : childConfigUnserialize (agedPlatform 60) (CStr.ofBytes
    ((agedPlatform 60).jsonPrint (childConfigSerialize (agedConfig 60)))) =
      some (agedConfig 60) := by
  have hparsed : childConfigFromJson (agedJson 60) = some (agedConfig 60) := by decide +kernel
  have hjson := agedPlatform_parse 60 (by decide +kernel)
  exact (unserialize_serialize_iff hparsed hjson).mpr ⟨by decide, by decide⟩

/-- An age of -1 comes back as 0. -/
theorem agedConfig_changes : ¬ ∀ (P : Platform) (obj : Json) (cc : ChildConfig),
    childConfigFromJson obj = some cc →
    P.jsonParse (CStr.ofBytes (P.jsonPrint (childConfigSerialize cc))).bytes =
      some (childConfigSerialize cc) →
    childConfigUnserialize P (CStr.ofBytes (P.jsonPrint (childConfigSerialize cc))) = some cc := by
  intro h
  have hback := h (agedPlatform (-1)) (agedJson (-1)) (agedConfig (-1)) (by decide +kernel)
    (agedPlatform_parse (-1) (by decide +kernel))
  revert hback
  decide +kernel

end RoundTrip

end UbervisorConfigCodec
