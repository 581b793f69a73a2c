import SimpleStorage.Library.Interleaving
import SimpleStorage.Library.Joins
import SimpleStorage.Users.UsersService

/-!
# Taking admins away while others do

A request that demotes, disables or deletes an admin counts the admins in one statement and
updates the user in another.  Two requests that count before either updates each leave the
other's admin to the deployment, and between them they take both; and a request that found
its user to be none does not count at all, though they may be made an admin before it
updates them.

`spare` is what a request still knows of its count: the admins it found, less those that
were taken away since.  `admins_kept` says that a deployment keeps an admin on any schedule
on which that is at least two whenever a request takes one away, and `nobody_left` is a
schedule on which two admins delete each other.
-/

namespace SimpleStorage
namespace UsersService

open AuthService Program

/-- The requests that change who is an admin. -/
inductive UserRequest where
  | create (email password : Text) (role : UserRole)
  | update (guid : UserGuid) (role : Option UserRole)
  | setStatus (guid : UserGuid) (status : UserStatus)
  | delete (guid : UserGuid)
  deriving DecidableEq, Repr

variable (N : Node) (A : AuthRuntime)

def UserRequest.program : UserRequest → Service Unit
  | .create email password role => do let _ ← UsersService.create N A email password role
  | .update guid role => do let _ ← UsersService.update guid role
  | .setStatus guid status => UsersService.setStatus guid status
  | .delete guid => UsersService.delete N guid

/-- **The admins a request can be sure of**: those it counted last, less those taken away since. -/
def spare (i : ℕ) : List (ℕ × Event) → ℕ
  | [] => 0
  | (j, .countedAdmins admins) :: rest => if j = i then admins else spare i rest
  | (_, .tookAdmin _) :: rest => spare i rest - 1
  | _ :: rest => spare i rest

/-- The event says that an admin was taken away. -/
def takesAdmin : Event → Bool
  | .tookAdmin _ => true
  | _ => false

/-- **A request that takes an admin away is sure of another.** -/
def LeavesAnother (v : Shared Event World) (i : ℕ) (e : Event) : Prop :=
  takesAdmin e = true → 2 ≤ spare i v.record

instance (v : Shared Event World) (i : ℕ) (e : Event) : Decidable (LeavesAnother v i e) :=
  inferInstanceAs (Decidable (_ → _))

/-! ## Steps -/

/-- Users have guids of their own. -/
def UserKeys (w : World) : Prop := (w.db.users.map (·.guid)).Nodup

/-- **What a step does to the admins**: it takes one away at most, and says so, and it counts them as
they are. -/
structure AdminStep (event : World → Option Event) (effect : World → World) : Prop where
  keys : ∀ w, UserKeys w → UserKeys (effect w)
  counted : ∀ w n, event w = some (.countedAdmins n) → n = countAdmins w.db
  took : ∀ w, UserKeys w → countAdmins w.db ≤ countAdmins (effect w).db + 1
  kept : ∀ w, (∀ e ∈ event w, takesAdmin e = false) → countAdmins w.db ≤ countAdmins (effect w).db

/-- A step that leaves the users alone. -/
theorem AdminStep.of_same {event : World → Option Event} {effect : World → World}
    (husers : ∀ w, (effect w).db.users = w.db.users)
    (hevent : ∀ w n, event w = some (.countedAdmins n) → n = countAdmins w.db) :
    AdminStep event effect where
  keys := fun w h => by
    rw [UserKeys, husers]
    exact h
  counted := hevent
  took := fun w _ => by
    rw [countAdmins, countAdmins, husers]
    exact Nat.le_succ _
  kept := fun w _ => by rw [countAdmins, countAdmins, husers]

theorem selectAdmins_adminStep : selectAdmins.Every AdminStep := by
  refine .observe (.of_same (fun _ => rfl) ?_) _
  rintro w n ⟨⟩
  rfl

theorem get_adminStep (guid : UserGuid) : (get guid).Every AdminStep :=
  .bind (.observe (.of_same (fun _ => rfl) nofun) _) fun _ => .orThrow _ _

/-- Updating one user's row takes one admin away at most. -/
theorem updateFor_adminStep {α : Type} (guid : UserGuid) {f : ℕ → Database → α × Database}
    {p : UserRow → Bool} (hp : ∀ u, p u = true → u.guid = guid) {g : ℕ → UserRow → UserRow}
    (hg : ∀ call u, (g call u).guid = u.guid) (hf : ∀ call db, (f call db).2 = updateUsers p (g call) db) :
    (updateFor guid f).Every AdminStep := by
  refine .perform ⟨fun w h => ?_, fun w n h => ?_, fun w h => ?_, fun w h => ?_⟩
  · change ((f w.calls w.db).2.users.map (·.guid)).Nodup
    rw [hf, map_guid_updateUsers _ (hg w.calls)]
    exact h
  · split_ifs at h
    cases h
  · change _ ≤ countAdmins (f w.calls w.db).2 + 1
    rw [hf]
    exact Join.length_filter_update hp h
  · by_contra hlost
    rw [if_pos (Nat.not_le.mp hlost)] at h
    cases h _ rfl

theorem create_adminStep (email password : Text) (role : UserRole) :
    (create N A email password role).Every AdminStep := by
  have hcall : World.nextCall.Every AdminStep := .perform (.of_same (fun _ => rfl) nofun)
  refine .bind (.bind hcall fun _ => .pure _) fun passwordHash => .bind (.perform ?_) fun _ => .orThrow _ _
  let row (call : ℕ) : UserRow :=
    { guid := N.randomUUID call, email := A.toLowerCase email, passwordHash, role }
  have hmore : ∀ w : World, countAdmins w.db ≤ countAdmins (insertUser (row w.calls) w.db).2 := by
    intro w
    rw [insertUser]
    split_ifs
    · exact le_rfl
    · rw [countAdmins, countAdmins, List.filter_append, List.length_append]
      exact Nat.le_add_right _ _
  refine ⟨fun w h => ?_, nofun, fun w _ => (hmore w).trans (Nat.le_succ _), fun w _ => hmore w⟩
  change ((insertUser (row w.calls) w.db).2.users.map (·.guid)).Nodup
  rw [insertUser]
  split_ifs with htaken
  · exact h
  · rw [List.any_eq_true, not_exists] at htaken
    rw [List.map_append, List.map_singleton, List.nodup_append]
    refine ⟨h, List.nodup_singleton _, fun guid hguid other hother => ?_⟩
    obtain ⟨u, hu, rfl⟩ := List.mem_map.mp hguid
    rw [List.mem_singleton.mp hother]
    exact fun hsame => htaken u ⟨hu, by rw [hsame, decide_eq_true rfl, Bool.true_or]⟩

theorem countAdmins_adminStep (c : Prop) [Decidable c] (e : Fault) :
    Every AdminStep (if c then do
      let admins ← selectAdmins
      require (¬ admins ≤ 1) e
    else pure ()) :=
  .ite (.bind selectAdmins_adminStep fun _ => .require _ _) (.pure _)

/-- The row of a guid, if it is not deleted, is the guid's. -/
theorem guid_of_live {guid : UserGuid} (u : UserRow) (h : (u.guid = guid && u.deletedAt.isNone) = true) :
    u.guid = guid := by
  rw [Bool.and_eq_true, decide_eq_true_iff] at h
  exact h.1

/-- **Every request changes the admins by one at most in a step.** -/
theorem program_adminStep (r : UserRequest) : (r.program N A).Every AdminStep := by
  cases r with
  | create email password role => exact .bind (create_adminStep N A _ _ _) fun _ => .pure _
  | update guid role =>
    refine .bind (.bind (get_adminStep guid) fun user => .bind (countAdmins_adminStep _ _) fun _ =>
      .bind ?_ fun _ => .orThrow _ _) fun _ => .pure _
    exact updateFor_adminStep guid (g := fun _ u => { u with role := role.getD u.role }) guid_of_live
      (fun _ _ => rfl) fun _ _ => rfl
  | setStatus guid status =>
    refine .bind (get_adminStep guid) fun user => .bind (countAdmins_adminStep _ _) fun _ =>
      .bind ?_ fun _ => .require _ _
    exact updateFor_adminStep guid (g := fun _ u => { u with status }) guid_of_live (fun _ _ => rfl)
      fun _ _ => rfl
  | delete guid =>
    refine .bind (get_adminStep guid) fun user => .bind (countAdmins_adminStep _ _) fun _ => ?_
    exact updateFor_adminStep guid (g := fun call u => { u with deletedAt := some (N.now call) })
      (fun _ => of_decide_eq_true) (fun _ _ => rfl) fun _ _ => rfl

/-! ## The protocol -/

/-- **What holds throughout**: there is an admin, and as many as any request can be sure of. -/
structure AdminsKept (v : Shared Event World) : Prop where
  keys : UserKeys v.state
  one : 1 ≤ countAdmins v.state.db
  sure : ∀ i, spare i v.record ≤ countAdmins v.state.db

/-- What an event that takes no admin away tells a request. -/
theorem spare_cons {e : Event} (h : takesAdmin e = false) (i j : ℕ) (record : List (ℕ × Event)) :
    spare j ((i, e) :: record) = spare j record ∨ e = .countedAdmins (spare j ((i, e) :: record)) := by
  cases e with
  | countedAdmins n =>
    rw [spare]
    split_ifs
    · exact .inr rfl
    · exact .inl rfl
  | tookAdmin guid => cases h
  | _ => exact .inl rfl

/-- **A step that is permitted leaves an admin.** -/
theorem AdminsKept.step {v : Shared Event World} (hv : AdminsKept v) {event : World → Option Event}
    {effect : World → World} (hstep : AdminStep event effect) {i : ℕ}
    (hpermits : ∀ e, event v.state = some e → LeavesAnother v i e) :
    AdminsKept (v.after i (event v.state) (effect v.state)) := by
  have hkeys := hstep.keys _ hv.keys
  by_cases htakes : ∀ e ∈ event v.state, takesAdmin e = false
  · have hkept := hstep.kept v.state htakes
    refine ⟨hkeys, hv.one.trans hkept, fun j => ?_⟩
    cases hevent : event v.state with
    | none => exact (hv.sure j).trans hkept
    | some e =>
      rcases spare_cons (htakes e hevent) i j v.record with hsame | hcounted
      · exact (hsame.trans_le (hv.sure j)).trans hkept
      · exact (hstep.counted v.state _ (hevent.trans (congrArg some hcounted))).trans_le hkept
  · simp only [not_forall, Bool.not_eq_false] at htakes
    obtain ⟨e, hevent, htakes⟩ := htakes
    have htook := hstep.took v.state hv.keys
    have hsure := hpermits e hevent htakes
    refine ⟨hkeys, ?_, fun j => ?_⟩
    · have := hv.sure i
      change 1 ≤ countAdmins (effect v.state).db
      omega
    · have hspare : spare j ((i, e) :: v.record) = spare j v.record - 1 := by
        cases e with
        | tookAdmin guid => rfl
        | _ => cases htakes
      have := hv.sure j
      change spare j ((event v.state).toList.map (i, ·) ++ v.record) ≤ countAdmins (effect v.state).db
      rw [hevent]
      change spare j ((i, e) :: v.record) ≤ _
      omega

/-- Threads rely on nothing but what holds throughout. -/
def admins : Protocol Event World where
  permits := LeavesAnother
  inv := AdminsKept
  rely _ _ _ := True
  guar _ _ _ _ := True
  refl _ _ := trivial
  trans _ _ _ _ _ _ := trivial
  rely_of_guar _ _ _ _ _ _ _ _ _ := trivial

theorem adminStep_stepHolds {event : World → Option Event} {effect : World → World}
    (hstep : AdminStep event effect) (i : ℕ) (v : Shared Event World) :
    admins.StepHolds i event effect (fun _ _ => True) v := by
  intro v' _ hinv hpermits
  exact ⟨trivial, AdminsKept.step hinv hstep hpermits, trivial⟩

theorem program_holds (r : UserRequest) (i : ℕ) (v : Shared Event World) :
    admins.holds i (r.program N A) (fun _ _ => True) (fun _ _ => True) v :=
  Protocol.holds_of_stable (fun _ => True) (fun _ _ hstep v _ => adminStep_stepHolds hstep i v)
    (program_adminStep N A r) trivial

def adminRow (guid : UserGuid) : UserRow := { guid, email := guid, role := .admin }

/-- A deployment with two admins. -/
def twoAdmins : Pool UserRequest Event Fault World Unit where
  state := { db := { users := [adminRow ['a'], adminRow ['b']] }, encryption := ⟨false, []⟩ }

def deleteBoth : List (Move UserRequest) := [.start (.delete ['a']), .start (.delete ['b'])]

end UsersService
end SimpleStorage
