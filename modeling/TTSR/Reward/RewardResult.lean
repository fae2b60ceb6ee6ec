import TTSR.Foundation.Value

/-!
# The dictionary a reward manager returns
-/

namespace TTSR.Reward

open TTSR.Foundation

/-- The dictionary `run_single` returns. -/
structure RewardResult where
  rewardScore : PyFloat
  rewardExtraInfo : List (String × Json)

/-- A field of `reward_extra_info`. -/
def RewardResult.field (r : RewardResult) (key : String) : Option Json :=
  Dict.lookupEntries key r.rewardExtraInfo

/-- The reward as an exact number. -/
def RewardResult.reward (r : RewardResult) : ℚ :=
  match r.rewardScore with
  | .fin q => q
  | _ => 0

end TTSR.Reward
