import Mathlib.Tactic.Common
import PullIngest.Wire.Channel

/-!
# Names of channels

Two channels have one name only if they are the same channel (`Channel.name_injective`), whatever
the ids of their sessions are.
-/

namespace PullIngest.Channel

theorem toList_ofSession (session role : String) :
    (ofSession session role).toList = "data/".toList ++ session.toList ++ '/' :: role.toList := by
  simp [ofSession, String.toList_append]

theorem ofSession_inj {session session' role : String}
    (h : ofSession session role = ofSession session' role) : session = session' := by
  have h' := congrArg String.toList h
  rw [toList_ofSession, toList_ofSession] at h'
  have h'' := List.append_cancel_right h'
  exact String.toList_inj.1 (List.append_cancel_left h'')

theorem name_injective : Function.Injective name := by
  intro c c' h
  -- Channels of different kinds differ at the beginning of their names or at the end.
  have hbegin := congrArg String.toList h
  have hend := congrArg List.reverse hbegin
  cases c <;> cases c' <;> simp [name, toList_ofSession] at hbegin hend h ⊢
  all_goals first | exact h | exact ofSession_inj h

end PullIngest.Channel
