import AndroidKernel.Mlimit.Refs

/-! Everything one step of the machine of references can do. -/

namespace AndroidKernel.Mlimit.Refs
variable {τ : Type} [DecidableEq τ] {s s' : State τ} {a : Act τ} {t : τ}

def zalloc (s : State τ) (t : τ) (ns : Ns) (uid : Uid) (p : UserPtr) : State τ :=
  { s.goto t (.allocInsert ns uid p) with
    users := { s.users with
      obj := Function.update s.users.obj p (newUser ns uid)
      live := insert p s.users.live } }

inductive Step (s : State τ) : Act τ → State τ → Prop
  | allocFound (t : τ) (ns : Ns) (uid : Uid) (p : UserPtr) (ht : s.pc t = .idle)
      (hl : s.users.lookup ns uid = some p) : Step s (.allocUid t ns uid) (s.hold p)
  | allocMiss (t : τ) (ns : Ns) (uid : Uid) (ht : s.pc t = .idle) :
      Step s (.allocUid t ns uid) (s.goto t (.allocNew ns uid))
  | findFound (t : τ) (ns : Ns) (uid : Uid) (p : UserPtr) (ht : s.pc t = .idle)
      (hl : s.users.lookup ns uid = some p) : Step s (.findUser t ns uid) (s.hold p)
  | findMiss (t : τ) (ns : Ns) (uid : Uid) : Step s (.findUser t ns uid) s
  | free (t : τ) (p : UserPtr) (ht : s.pc t = .idle) (hr : 0 < s.refs p) :
      Step s (.freeUid t p) (freeUid s t p)
  | limitFound (t : τ) (ns : Ns) (uid : Uid) (m sum : Long) (p : UserPtr) (ht : s.pc t = .idle)
      (hl : s.users.lookup ns uid = some p) :
      Step s (.setMlimit t ns uid m sum) ((s.leak p).goto t (.limit ns uid p m sum))
  | limitMiss (t : τ) (ns : Ns) (uid : Uid) (m sum : Long) (ht : s.pc t = .idle)
      (hl : s.users.lookup ns uid = none) : Step s (.setMlimit t ns uid m sum) (s.goto t .oops)
  | pagesFound (t : τ) (ns : Ns) (p : UserPtr) (ht : s.pc t = .idle) (hs : s.start = true)
      (hu : s.user ≠ 0) (hl : s.users.lookup ns s.user = some p) :
      Step s (.allocPages t ns) ((s.leak p).goto t .inAlloc)
  | pages (t : τ) (ns : Ns) (ht : s.pc t = .idle) : Step s (.allocPages t ns) (s.goto t .inAlloc)
  | badFound (t : τ) (ns : Ns) (p : UserPtr) (ht : s.pc t = .idle ∨ s.pc t = .inAlloc)
      (hu : s.user ≠ 0) (hl : s.users.lookup ns s.user = some p) :
      Step s (.selectBad t ns) (s.leak p)
  | badMiss (t : τ) (ns : Ns) (ht : s.pc t = .idle ∨ s.pc t = .inAlloc) (hu : s.user ≠ 0) :
      Step s (.selectBad t ns) (s.goto t .oops)
  | badIdle (t : τ) (ns : Ns) : Step s (.selectBad t ns) s
  | zallocFails (t : τ) (ns : Ns) (uid : Uid) (ht : s.pc t = .allocNew ns uid) :
      Step s (.step t none) (s.goto t .idle)
  | zalloc (t : τ) (ns : Ns) (uid : Uid) (p : UserPtr) (ht : s.pc t = .allocNew ns uid)
      (hp : p ∉ s.users.live) : Step s (.step t (some p)) (zalloc s t ns uid p)
  | insertNew (t : τ) (new : Option UserPtr) (ns : Ns) (uid : Uid) (p : UserPtr)
      (ht : s.pc t = .allocInsert ns uid p) : Step s (.step t new) (allocInsert s t ns uid p)
  | destroy (t : τ) (new : Option UserPtr) (p : UserPtr) (ht : s.pc t = .dying p) :
      Step s (.step t new) { s.goto t .idle with users := s.users.release p }
  | limit (t : τ) (new : Option UserPtr) (ns : Ns) (uid : Uid) (p : UserPtr) (m sum : Long)
      (ht : s.pc t = .limit ns uid p m sum) : Step s (.step t new) (setLimit s t uid p m sum)
  | pagesEnd (t : τ) (new : Option UserPtr) (ht : s.pc t = .inAlloc) :
      Step s (.step t new) (s.goto t .idle)

theorem step_of_stepAt {new : Option UserPtr} {pc : Pc} (ht : s.pc t = pc)
    (h : stepAt s t new pc = some s') : Step s (.step t new) s' := by
  cases pc with
  | idle | oops => cases h
  | allocNew ns uid =>
    cases new with
    | none =>
      obtain rfl := Option.some_inj.mp h
      exact .zallocFails t ns uid ht
    | some p =>
      simp only [stepAt] at h
      split at h
      · cases h
      · rename_i hp
        obtain rfl := Option.some_inj.mp h
        exact .zalloc t ns uid p ht hp
  | allocInsert ns uid p =>
    obtain rfl := Option.some_inj.mp h
    exact .insertNew t new ns uid p ht
  | dying p =>
    obtain rfl := Option.some_inj.mp h
    exact .destroy t new p ht
  | limit ns uid p m sum =>
    obtain rfl := Option.some_inj.mp h
    exact .limit t new ns uid p m sum ht
  | inAlloc =>
    obtain rfl := Option.some_inj.mp h
    exact .pagesEnd t new ht

theorem step_of_next (h : next s a = some s') : Step s a s' := by
  cases a with
  | step t new => exact step_of_stepAt rfl h
  | allocUid t ns uid =>
    simp only [next] at h
    split at h
    · rename_i ht
      cases hl : s.users.lookup ns uid with
      | some p =>
        simp only [hl, Option.some_inj] at h
        subst h
        exact .allocFound t ns uid p ht hl
      | none =>
        simp only [hl, Option.some_inj] at h
        subst h
        exact .allocMiss t ns uid ht
    · cases h
  | findUser t ns uid =>
    simp only [next] at h
    split at h
    · rename_i ht
      cases hl : s.users.lookup ns uid with
      | some p =>
        simp only [hl, Option.some_inj] at h
        subst h
        exact .findFound t ns uid p ht hl
      | none =>
        simp only [hl, Option.some_inj] at h
        subst h
        exact .findMiss t ns uid
    · cases h
  | freeUid t p =>
    simp only [next] at h
    split at h
    · rename_i ht
      obtain rfl := Option.some_inj.mp h
      exact .free t p ht.1 ht.2
    · cases h
  | setMlimit t ns uid m sum =>
    simp only [next] at h
    split at h
    · rename_i ht
      cases hl : s.users.lookup ns uid with
      | some p =>
        simp only [hl, Option.some_inj] at h
        subst h
        exact .limitFound t ns uid m sum p ht hl
      | none =>
        simp only [hl, Option.some_inj] at h
        subst h
        exact .limitMiss t ns uid m sum ht hl
    · cases h
  | allocPages t ns =>
    simp only [next] at h
    split at h
    · rename_i ht
      split at h
      · rename_i hs
        cases hl : s.users.lookup ns s.user with
        | some p =>
          simp only [hl, Option.some_inj] at h
          subst h
          exact .pagesFound t ns p ht hs.1 hs.2 hl
        | none =>
          simp only [hl, Option.some_inj] at h
          subst h
          exact .pages t ns ht
      · obtain rfl := Option.some_inj.mp h
        exact .pages t ns ht
    · cases h
  | selectBad t ns =>
    simp only [next] at h
    split at h
    · rename_i ht
      split at h
      · rename_i hu
        cases hl : s.users.lookup ns s.user with
        | some p =>
          simp only [hl, Option.some_inj] at h
          subst h
          exact .badFound t ns p ht hu hl
        | none =>
          simp only [hl, Option.some_inj] at h
          subst h
          exact .badMiss t ns ht hu
      · obtain rfl := Option.some_inj.mp h
        exact .badIdle t ns
    · cases h

end AndroidKernel.Mlimit.Refs
