import Concordia.Lib.Text
import Concordia.Nccl.Rendezvous

/-!
# The ring of a new communicator

`concordia_configure_recovery_plan` reads the failed rank and its replacement from
the environment and lays the ring out in an array of 256 entries. With more ranks
than that there is no room for a plan and the default ring is cut off, and nothing
refuses such a communicator: every rank is in the ring exactly when there are at
most 256 of them (`everyRank_iff`).
-/

namespace Concordia.Nccl

open Concordia.Lib List

/-! ## The environment -/

/-- The variables of the process. -/
abbrev Env := String → Option Text

/-- `isspace` in the C locale. -/
def isSpace (c : Char) : Bool := c = ' ' ∨ (9 ≤ c.toNat ∧ c.toNat ≤ 13)

/-- The sign of a number and what follows. -/
def signOf : Text → Bool × Text
  | '-' :: rest => (true, rest)
  | '+' :: rest => (false, rest)
  | rest => (false, rest)

/-- `strtol` in base 10 on a string that it reads to the end; `none` if it stops
before. Numbers out of range are the nearest `long`. -/
def strtol (s : Text) : Option Int :=
  let (negative, digits) := signOf (s.dropWhile isSpace)
  if digits ≠ [] ∧ digits.all Char.isDigit then
    let magnitude : Int := Nat.ofDigitChars 10 digits 0
    some (max (-2 ^ 63) (min (2 ^ 63 - 1) (if negative then -magnitude else magnitude)))
  else none

/-- The conversion from `long` to `int`. -/
def toInt32 (v : Int) : Int := Int.bmod v (2 ^ 32)

/-- `read_env_i32`. -/
def Env.readI32 (env : Env) (name : String) (fallback : Int) : Int :=
  match env name with
  | none => fallback
  | some [] => fallback
  | some value => ((strtol value).map toInt32).getD fallback

/-- `env_enabled`. -/
def Env.enabled (env : Env) (name : String) : Bool :=
  match env name with
  | none => false
  | some value => value = "1".toList ∨ value = "true".toList ∨ value = "on".toList

/-- What `concordia_configure_recovery_plan` reads for a communicator. -/
def Env.commConfig (env : Env) (plannerLinked : Bool) (nranks : Int) : CommConfig where
  nranks := nranks
  recoveryEnabled :=
    env.enabled "HETGPU_CONCORDIA_NCCL_RECOVERY" || env.enabled "CONCORDIA_NCCL_RECOVERY"
  failedRank := env.readI32 "HETGPU_CONCORDIA_NCCL_FAILED_RANK" (-1)
  replacementRank := env.readI32 "HETGPU_CONCORDIA_NCCL_REPLACEMENT_RANK" (-1)
  plannerLinked := plannerLinked

/-! ## Rings -/

namespace CommConfig

/-- The ring has one entry for each rank, none of them twice, and every rank is in
it, but for a failed one whose place is taken by its replacement. -/
structure EveryRank (config : CommConfig) : Prop where
  length_eq : (config.activeRanks.length : Int) = config.nranks
  nodup : config.activeRanks.Nodup
  mem : ∀ rank, 0 ≤ rank → rank < config.nranks → rank ∈ config.activeRanks ∨
    (config.recoveryEnabled = true ∧ rank = config.failedRank ∧
      config.activeRanks[rank.toNat]? = some config.replacementRank)

variable {config : CommConfig}

theorem length_rankRange (n : Int) : (rankRange n).length = n.toNat := by
  rw [rankRange, length_map, length_range]

theorem getElem?_rankRange {n rank : Int} (hpos : 0 ≤ rank) (hlt : rank < n) :
    (rankRange n)[rank.toNat]? = some rank := by
  rw [rankRange, getElem?_map, getElem?_range (by omega)]
  exact congrArg some (Int.toNat_of_nonneg hpos)

/-- The ring is the default one, or the plan of the runtime if there is room. -/
theorem activeRanks_cases (config : CommConfig) :
    config.activeRanks = rankRange (min config.nranks maxRanks) ∨
      (config.recoveryEnabled = true ∧
        planReplacementRing config.nranks config.failedRank config.replacementRank =
          .ok config.activeRanks ∧
        config.activeRanks.length ≤ maxRanks) := by
  have hdefault : (if config.nranks < maxRanks then config.nranks else maxRanks) =
      min config.nranks maxRanks := by
    rw [min_def]
    split <;> split <;> omega
  unfold activeRanks
  rw [hdefault]
  dsimp only
  split
  · exact .inl rfl
  · rename_i hconfigured
    cases hplan : concordiaPlanReplacement config.plannerLinked config.nranks config.failedRank
        config.replacementRank maxRanks with
    | error _ => exact .inl rfl
    | ok planned =>
      obtain ⟨hring, hroom⟩ := concordiaPlanReplacement_eq_ok_iff.mp hplan
      cases planned with
      | nil => exact .inl rfl
      | cons rank ring =>
        refine .inr ⟨?_, hring, hroom⟩
        cases henabled : config.recoveryEnabled with
        | true => rfl
        | false => exact absurd (.inl (by simp [henabled])) hconfigured

/-- A replacement that is nobody else's rank leaves the entries distinct. -/
theorem nodup_replaced {n failed rank : Int} (hown : rank ∈ rankRange n → rank = failed) :
    ((rankRange n).map fun r => if r = failed then rank else r).Nodup := by
  refine (nodup_rankRange n).map_on fun a ha b hb heq => ?_
  split at heq <;> split at heq
  · rename_i hfailed hfailed'
    rw [hfailed, hfailed']
  · rename_i hfailed hother
    exact absurd (hown (heq ▸ hb)) (fun h => hother (heq ▸ h))
  · rename_i hother hfailed
    exact absurd (hown (heq ▸ ha)) (fun h => hother (heq ▸ h))
  · exact heq

/-- The ring of a plan. -/
theorem everyRank_of_plan (hpos : 0 < config.nranks) (henabled : config.recoveryEnabled = true)
    (hplan : planReplacementRing config.nranks config.failedRank config.replacementRank =
      .ok config.activeRanks) : config.EveryRank := by
  obtain ⟨_, hown, hring⟩ := planReplacementRing_eq_ok_iff.mp hplan
  refine ⟨?_, ?_, ?_⟩
  · rw [hring, length_map, length_rankRange]
    omega
  · rw [hring]
    exact nodup_replaced hown
  · intro rank hrank hlt
    have hget : config.activeRanks[rank.toNat]? =
        some (if rank = config.failedRank then config.replacementRank else rank) := by
      rw [hring, getElem?_map, getElem?_rankRange hrank hlt]
      rfl
    by_cases hfailed : rank = config.failedRank
    · rw [if_pos hfailed] at hget
      exact .inr ⟨henabled, hfailed, hget⟩
    · rw [if_neg hfailed] at hget
      exact .inl (mem_of_getElem? hget)

theorem everyRank_of_le (hpos : 0 < config.nranks) (hle : config.nranks ≤ maxRanks) :
    config.EveryRank := by
  rcases config.activeRanks_cases with hring | ⟨henabled, hplan, _⟩
  · rw [min_eq_left hle] at hring
    refine ⟨?_, ?_, fun rank hrank hlt => .inl ?_⟩
    · rw [hring, length_rankRange]
      omega
    · rw [hring]
      exact nodup_rankRange _
    · rw [hring]
      exact mem_rankRange.mpr ⟨hrank, hlt⟩
  · exact everyRank_of_plan hpos henabled hplan

/-- No ring has more entries than the array. -/
theorem length_activeRanks_le (config : CommConfig) :
    (config.activeRanks.length : Int) ≤ maxRanks := by
  rcases config.activeRanks_cases with hring | ⟨_, _, hroom⟩
  · rw [hring, length_rankRange, maxRanks]
    omega
  · exact hroom

end CommConfig

/-- **Every rank.** Under every environment, and with either planner, every rank is
in the ring exactly when the array has room for all of them. -/
theorem everyRank_iff (env : Env) (plannerLinked : Bool) (nranks : Int) (hpos : 0 < nranks) :
    (env.commConfig plannerLinked nranks).EveryRank ↔ nranks ≤ maxRanks := by
  constructor
  · intro h
    have hlength : _ = nranks := h.length_eq
    have hroom := (env.commConfig plannerLinked nranks).length_activeRanks_le
    omega
  · intro hle
    exact CommConfig.everyRank_of_le hpos hle

/-- Four ranks, of which the third was replaced by rank 7. -/
theorem everyRank_replaced :
    let env : Env := fun name =>
      if name = "CONCORDIA_NCCL_RECOVERY" then some "on".toList
      else if name = "HETGPU_CONCORDIA_NCCL_FAILED_RANK" then some "2".toList
      else if name = "HETGPU_CONCORDIA_NCCL_REPLACEMENT_RANK" then some "7".toList
      else none
    (env.commConfig true 4).activeRanks = [0, 1, 7, 3] ∧ (env.commConfig true 4).EveryRank :=
  ⟨by decide +kernel, (everyRank_iff _ true 4 (by decide)).mpr (by decide)⟩

/-- 257 ranks and nothing in the environment: the last one is in no ring. -/
theorem not_everyRank_257 : ¬ (Env.commConfig (fun _ => none) true 257).EveryRank := by
  intro h
  have hlength : _ = (257 : Int) := h.length_eq
  have hroom := (Env.commConfig (fun _ => none) true 257).length_activeRanks_le
  rw [hlength] at hroom
  exact absurd hroom (by decide)

end Concordia.Nccl
