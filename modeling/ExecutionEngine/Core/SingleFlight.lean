/-
  `single_flight` against Redis: who is inside the block.

  `Router.singleFlight` leaves the token of an acquire to the answer of the operation. Here the
  tokens are written out, over a server with a clock (`redisServer`): commands may fail with or
  without effect, time passes as it likes, and keys go when they run out or are released, not
  otherwise. `singleFlight_erase` is the connection. `single_flight_exclusive`: of the callers
  that Redis has told that they hold a key, one at most has a lease that has not run out, nobody
  else's release takes it, and a caller that has left the block has asked to release it.
-/
import ExecutionEngine.Async.Rely
import ExecutionEngine.Async.Translate
import ExecutionEngine.Containers.Lease
import ExecutionEngine.Core.Gates

namespace ExecutionEngine.SingleFlight

open Async Prog
open Lease (Server)

/-- The commands of the lock, and whatever else a caller awaits. -/
inductive RedisOp where
  /-- `SET key token NX EX ttl`. -/
  | setNx (key token : String) (ttlSeconds : Int)
  /-- `_RELEASE_LUA`. -/
  | release (key token : String)
  | elsewhere (op : EngineOp)

@[reducible] def RedisOp.Res : RedisOp → Type
  | .setNx _ _ _ => Bool
  | .release _ _ => Unit
  | .elsewhere op => op.Res

@[reducible] def redisSig : Sig where
  Op := RedisOp
  Res := RedisOp.Res
  Exn := Exn

/-- What `SET NX EX` does if it arrives: a TTL must be positive. -/
def setNx (s : Server String String) (key token : String) (ttlSeconds : Int) :
    Except Exn Bool × Server String String :=
  if ttlSeconds ≤ 0 then (.error (.cacheError "invalid expire time in 'set' command"), s)
  else if s.holder key = none then (.ok true, s.grant key token (ttlSeconds * 1000000))
  else (.ok false, s)

/-- Redis: a command is answered, or fails with or without having arrived. -/
def redisServer : Sem redisSig (Server String String) where
  step s op := match op with
    | .setNx key token ttl => fun r s' =>
      setNx s key token ttl = (r, s') ∨
        ∃ e, r = .error e ∧ (s' = s ∨ s' = (setNx s key token ttl).2)
    | .release key token => fun r s' =>
      (r = .ok () ∧ s' = s.giveUp key token) ∨ ∃ e, r = .error e ∧ (s' = s ∨ s' = s.giveUp key token)
    | .elsewhere _ => fun _ s' => s' = s

/-- Time passes. -/
def passes (s s' : Server String String) : Prop := ∃ d, 0 ≤ d ∧ s' = s.wait d

/-- `client.set(key, token, nx=True, ex=ttl_seconds)`. -/
def acquire (redis : Bool) (key token : String) (ttlSeconds : Int) : Prog redisSig Bool :=
  if redis then tryExcept (perform (S := redisSig) (.setNx key token ttlSeconds)) fun _ => .ret true
  else .ret true

/-- `client.eval(_RELEASE_LUA, 1, key, token)`. -/
def letGo (redis : Bool) (key token : String) (acquired : Bool) : Prog redisSig Unit :=
  if acquired && redis then
    tryExcept (perform (S := redisSig) (.release key token)) fun _ => .ret ()
  else .ret ()

/-- `single_flight`, with its token. -/
def singleFlight {α : Type} (redis : Bool) (key token : String) (ttlSeconds : Int)
    (body : Bool → Prog redisSig α) : Prog redisSig α := do
  let acquired ← acquire redis key token ttlSeconds
  tryFinally (body acquired) (letGo redis key token acquired)

/-! ## Without the tokens -/

/-- The commands as the router names them. -/
def erased : Renaming redisSig engineSig where
  op := fun
    | .setNx key _ ttlSeconds => .ext (.redisSetNx key ttlSeconds)
    | .release key _ => .ext (.redisRelease key)
    | .elsewhere op => op
  answer := fun
    | .setNx _ _ _ => id
    | .release _ _ => id
    | .elsewhere _ => id
  exn := id

/-- What the router awaits, beside the lock. -/
def outside : Renaming engineSig redisSig where
  op := .elsewhere
  answer := fun _ => id
  exn := id

theorem erase_outside {α : Type} (p : Eff α) : (p.translate outside).translate erased = p := by
  induction p with
  | ret a => rfl
  | raise e => rfl
  | stuck => rfl
  | call op k ih => exact congrArg (call op) (funext fun r => ih r)

theorem erase_acquire (R : Router) (key token : String) :
    (acquire R.redis key token R.settings.submitLockTtlSeconds).translate erased =
      R.acquireLock key := by
  unfold acquire Router.acquireLock
  split
  · exact congrArg (call _) (funext fun r => by cases r <;> rfl)
  · rfl

theorem erase_letGo (R : Router) (key token : String) (acquired : Bool) :
    (letGo R.redis key token acquired).translate erased = R.releaseLock key acquired := by
  unfold letGo Router.releaseLock
  split
  · exact congrArg (call _) (funext fun r => by cases r <;> rfl)
  · rfl

/-- Without the tokens it is what the router runs. -/
theorem singleFlight_erase {α : Type} (R : Router) (key token : String) (body : Bool → Eff α) :
    (singleFlight R.redis key token R.settings.submitLockTtlSeconds fun acquired =>
      (body acquired).translate outside).translate erased = R.singleFlight key body := by
  unfold singleFlight Router.singleFlight
  rw [bind_eq, bind_eq, translate_bind, erase_acquire]
  congr 1
  funext acquired
  rw [translate_tryFinally, erase_outside, erase_letGo]

/-! ## Who is inside -/

/-- What Redis has told a caller that holds the key. -/
def told (key token : String) (ttlSeconds : Int) : Event redisSig :=
  ⟨.setNx key token ttlSeconds, .ok true⟩

/-- The lock is asked for and given back under one token. -/
def Own (token : String) : RedisOp → Prop
  | .setNx _ t _ => t = token
  | .release _ t => t = token
  | .elsewhere _ => True

section Local

variable {α : Type} {key token : String} {ttlSeconds : Int} {h : List (Event redisSig)}

theorem outside_uses (token : String) (p : Eff α) : Uses (Own token) (p.translate outside) :=
  (uses_univ p).translate fun _ _ => trivial

theorem uses_singleFlight (body : Bool → Eff α) :
    Uses (Own token) (singleFlight true key token ttlSeconds fun acquired =>
      (body acquired).translate outside) := by
  have hacquire : Uses (Own token) (acquire true key token ttlSeconds) :=
    Uses.tryExcept (uses_perform (S := redisSig) (P := Own token) rfl) fun _ => trivial
  refine hacquire.bind fun acquired => (outside_uses token (body acquired)).tryFinally ?_
  cases acquired with
  | true =>
    exact Uses.tryExcept (uses_perform (S := redisSig) (P := Own token) rfl) fun _ => trivial
  | false => trivial

/-- What is awaited inside leaves what has been told as it is. -/
theorem told_outside (key token : String) (ttlSeconds : Int) (p : Eff α)
    (h : List (Event redisSig)) :
    wp Sem.free (fun _ _ => True) (p.translate outside)
      (fun _ h' => told key token ttlSeconds ∈ h' → told key token ttlSeconds ∈ h) h := by
  have huses : Uses (fun op : RedisOp => ∃ o, op = .elsewhere o) (p.translate outside) :=
    (uses_univ p).translate fun o _ => ⟨o, rfl⟩
  refine huses.keeps id (fun _ _ _ _ => trivial) ?_
  rintro h' op r h'' ⟨o, rfl⟩ hkept rfl hmem
  refine hkept ((List.mem_append.mp hmem).resolve_right fun hlast => ?_)
  cases List.mem_singleton.mp hlast

/-- Whoever has been told that it holds the key has, at the end, asked to release it. -/
theorem told_released (body : Bool → Eff α) :
    wp Sem.free (fun _ _ => True) (singleFlight true key token ttlSeconds fun acquired =>
      (body acquired).translate outside)
      (fun _ h => told key token ttlSeconds ∈ h → ∃ r, ⟨.release key token, r⟩ ∈ h) [] := by
  -- the lock is not held only after an answer that says so
  have hacquire : wp Sem.free (fun _ _ => True) (acquire true key token ttlSeconds)
      (outcome (fun acquired h => told key token ttlSeconds ∈ h → acquired = true)
        fun _ _ => False) [] := by
    refine wp_tryExcept.mpr (wp_perform.mpr ⟨trivial, fun r h hh => ?_⟩)
    cases r with
    | error e => exact fun _ => rfl
    | ok acquired =>
      intro hmem
      rw [hh, List.nil_append] at hmem
      cases List.mem_singleton.mp hmem
      rfl
  refine wp_seq_ok hacquire fun acquired h hacq => wp_tryFinally.mpr ?_
  refine wp_mono (told_outside key token ttlSeconds (body acquired) h) fun o h' hkept => ?_
  cases acquired with
  | false => exact fun hmem => absurd (hacq (hkept hmem)) Bool.false_ne_true
  | true =>
    refine wp_tryExcept.mpr (wp_perform.mpr ⟨trivial, fun r h'' hh => ?_⟩)
    have hasked : ∃ r, (⟨.release key token, r⟩ : Event redisSig) ∈ h'' :=
      ⟨r, hh ▸ List.mem_append_right h' (List.mem_singleton_self _)⟩
    cases r with
    | ok _ => exact fun _ => hasked
    | error e => exact fun _ => hasked

end Local

/-! ## One at a time -/

/-- `Honest`, and every key given up has been asked to be. -/
def Kept {ι : Type} (s : Server String String) (tr : List (ι × Event redisSig)) : Prop :=
  s.Honest ∧ ∀ k t, (k, t) ∈ s.givenUp → ∃ i r, (i, ⟨.release k t, r⟩) ∈ tr

/-- A successful `SET NX` grants the key. -/
theorem setNx_told {s s' : Server String String} {key token : String} {ttlSeconds : Int}
    (h : setNx s key token ttlSeconds = (.ok true, s')) :
    s.holder key = none ∧ s' = s.grant key token (ttlSeconds * 1000000) := by
  unfold setNx at h
  split at h
  · cases h
  · split at h
    · rename_i hfree
      exact ⟨hfree, (Prod.mk.inj h).2.symm⟩
    · cases h

/-- What `SET NX` can do to the keys. -/
theorem setNx_cases (s : Server String String) (key token : String) (ttlSeconds : Int) :
    (setNx s key token ttlSeconds).2 = s ∨ s.holder key = none ∧
      (setNx s key token ttlSeconds).2 = s.grant key token (ttlSeconds * 1000000) := by
  unfold setNx
  split
  · exact .inl rfl
  · split
    · exact .inr ⟨‹_›, rfl⟩
    · exact .inl rfl

/-- What a command can do to the keys. -/
theorem redisServer_cases {s s' : Server String String} {op : RedisOp} {r : redisSig.Answer op}
    (h : redisServer.step s op r s') :
    s' = s ∨
      (∃ key token d, s.holder key = none ∧ s' = s.grant key token d) ∨
      ∃ key token, op = .release key token ∧ s' = s.giveUp key token := by
  cases op with
  | setNx key token ttlSeconds =>
    have hstate : s' = s ∨ s' = (setNx s key token ttlSeconds).2 := by
      rcases h with h | ⟨e, -, h⟩
      · exact .inr (congrArg Prod.snd h).symm
      · exact h
    rcases hstate with rfl | rfl
    · exact .inl rfl
    · rcases setNx_cases s key token ttlSeconds with h | ⟨hfree, h⟩
      · exact .inl h
      · exact .inr (.inl ⟨key, token, _, hfree, h⟩)
  | release key token =>
    rcases h with ⟨-, h⟩ | ⟨e, -, h | h⟩
    · exact .inr (.inr ⟨key, token, rfl, h⟩)
    · exact .inl h
    · exact .inr (.inr ⟨key, token, rfl, h⟩)
  | elsewhere op => exact .inl h

section Runs

variable {ι : Type} [DecidableEq ι] {P₀ P Q : Pool redisSig (Server String String) ι}

theorem kept_reach (h₀ : Kept P₀.state P₀.trace) (hP : PoolReach redisServer passes P₀ P) :
    Kept P.state P.trace := by
  refine pool_invariant h₀ ?_ ?_ hP
  · intro s tr i op r s' ⟨hhonest, hasked⟩ hs
    have hlonger : ∀ k t, (k, t) ∈ s.givenUp →
        ∃ j r', (j, ⟨.release k t, r'⟩) ∈ tr ++ [(i, (⟨op, r⟩ : Event redisSig))] := by
      intro k t hk
      obtain ⟨j, r', hmem⟩ := hasked k t hk
      exact ⟨j, r', List.mem_append_left _ hmem⟩
    rcases redisServer_cases hs with rfl | ⟨key, token, d, hfree, rfl⟩ | ⟨key, token, rfl, rfl⟩
    · exact ⟨hhonest, hlonger⟩
    · exact ⟨hhonest.grant hfree d, hlonger⟩
    · refine ⟨hhonest.giveUp key token, fun k t hk => ?_⟩
      rcases List.mem_cons.mp hk with hnew | hold
      · obtain ⟨rfl, rfl⟩ := Prod.mk.inj hnew
        exact ⟨i, r, List.mem_append_right _ (List.mem_singleton_self _)⟩
      · exact hlonger k t hold
  · rintro s tr s' ⟨hhonest, hasked⟩ ⟨d, hd, rfl⟩
    exact ⟨hhonest.wait hd, hasked⟩

/-- What has been granted stays on record. -/
theorem grants_reach (hP : PoolReach redisServer passes P₀ P) :
    P₀.state.grants ⊆ P.state.grants := by
  refine pool_invariant (I := fun s _ => P₀.state.grants ⊆ s.grants) (List.Subset.refl _) ?_ ?_ hP
  · intro s tr i op r s' hsub hs
    rcases redisServer_cases hs with rfl | ⟨key, token, d, -, rfl⟩ | ⟨key, token, -, rfl⟩
    · exact hsub
    · exact List.subset_cons_of_subset _ hsub
    · exact hsub
  · rintro s tr s' hsub ⟨d, -, rfl⟩
    exact hsub

/-- Caller `i` has been told that it holds its key, its time has not run out since, and it has not
    asked to release it. -/
def Holds (key token : ι → String) (ttlSeconds : Int)
    (P₀ P : Pool redisSig (Server String String) ι) (i : ι) : Prop :=
  (∃ Q Q', PoolReach redisServer passes P₀ Q ∧ PoolStep redisServer passes Q Q' ∧
    Q'.trace = Q.trace ++ [(i, told (key i) (token i) ttlSeconds)] ∧
    PoolReach redisServer passes Q' P ∧
    P.state.now < Q.state.now + ttlSeconds * 1000000) ∧
  ∀ r, (i, ⟨.release (key i) (token i), r⟩) ∉ P.trace

variable {key token : ι → String} {ttlSeconds : Int} {i : ι}

theorem Holds.granted (h : Holds key token ttlSeconds P₀ P i) :
    ∃ u, (key i, token i, u) ∈ P.state.grants ∧ P.state.now < u := by
  obtain ⟨⟨Q, Q', -, hstep, htold, hP, hnow⟩, -⟩ := h
  refine ⟨Q.state.now + ttlSeconds * 1000000, grants_reach hP ?_, hnow⟩
  cases hstep with
  | env =>
    have hlen := congrArg List.length htold
    simp at hlen
  | @thread j op k r s' hj hs =>
    obtain ⟨-, hlast⟩ := List.append_inj' htold rfl
    obtain ⟨rfl, hev⟩ := Prod.mk.inj (List.cons.inj hlast).1
    obtain ⟨rfl, hr⟩ := Event.mk.inj hev
    obtain rfl := eq_of_heq hr
    rcases hs with hs | ⟨e, he, -⟩
    · obtain ⟨-, rfl⟩ := setNx_told hs
      exact List.mem_cons_self ..
    · cases he

end Runs

/-- Callers of `single_flight`, each with a token of its own and whatever it does inside, against
    a Redis whose commands fail as they like. -/
def callers {ι : Type} (key token : ι → String) (ttlSeconds : Int) (body : ι → Bool → Eff Unit)
    (now : Int) : Pool redisSig (Server String String) ι where
  threads i := singleFlight true (key i) (token i) ttlSeconds fun acquired =>
    (body i acquired).translate outside
  state := { now }
  trace := []

/-- Of the callers that Redis has told that they hold a key, until their time runs out or they ask
    to release it, the key is the caller's and nobody else's; and no caller that has been told so
    leaves the block without asking, whether or not its time has run out by then. -/
theorem single_flight_exclusive {ι : Type} [DecidableEq ι] {key token : ι → String}
    (htoken : Function.Injective token) (ttlSeconds : Int) (body : ι → Bool → Eff Unit) (now : Int)
    {P : Pool redisSig (Server String String) ι}
    (hP : PoolReach redisServer passes (callers key token ttlSeconds body now) P) :
    (∀ i, Holds key token ttlSeconds (callers key token ttlSeconds body now) P i →
      P.state.holder (key i) = some (token i)) ∧
    (∀ i j, Holds key token ttlSeconds (callers key token ttlSeconds body now) P i →
      Holds key token ttlSeconds (callers key token ttlSeconds body now) P j →
      key i = key j → i = j) ∧
    ∀ i, P.threads i = .ret () ∨ (∃ e, P.threads i = .raise e) →
      (i, told (key i) (token i) ttlSeconds) ∈ P.trace →
        ∃ r, (i, ⟨.release (key i) (token i), r⟩) ∈ P.trace := by
  have hkept : Kept P.state P.trace := by
    refine kept_reach ⟨Server.honest_new now, fun _ _ hk => ?_⟩ hP
    cases hk
  have hown : ∀ x ∈ P.trace, Own (token x.1) x.2.op :=
    pool_footprint (F := fun i => Own (token i)) rfl (fun i => uses_singleFlight (body i)) hP
  have hholder : ∀ i, Holds key token ttlSeconds (callers key token ttlSeconds body now) P i →
      P.state.holder (key i) = some (token i) := by
    intro i hi
    obtain ⟨u, hgrant, hu⟩ := hi.granted
    refine Server.holder_eq (hkept.1 (key i) (token i) u hgrant (fun hgone => ?_) hu) hu
    -- whoever asked for it has the token, so it is `i`
    obtain ⟨j, r, hasked⟩ := hkept.2 _ _ hgone
    obtain rfl := htoken (hown _ hasked)
    exact hi.2 r hasked
  refine ⟨hholder, fun i j hi hj hkey => ?_, fun i hend htold => ?_⟩
  · have hsame := (hholder i hi).symm.trans (hkey ▸ hholder j hj)
    exact htoken (Option.some.inj hsame)
  · obtain ⟨-, hlocal⟩ := local_discipline_of (K := fun _ => True) (φ := fun _ _ => True)
      (Q := fun i _ h => told (key i) (token i) ttlSeconds ∈ h →
        ∃ r, ⟨.release (key i) (token i), r⟩ ∈ h) rfl
      (fun i => wp_sem_mono (fun _ _ _ _ h => h.2) (told_released (body i))) hP
      fun _ _ => trivial
    have hmem : told (key i) (token i) ttlSeconds ∈ localHistory i P.trace :=
      mem_localHistory.mpr htold
    have hasked : ∃ r, (⟨.release (key i) (token i), r⟩ : Event redisSig) ∈ localHistory i P.trace := by
      have hw := hlocal i
      rcases hend with hend | ⟨e, hend⟩
      · rw [hend] at hw
        exact hw hmem
      · rw [hend] at hw
        exact hw hmem
    obtain ⟨r, hr⟩ := hasked
    exact ⟨r, mem_localHistory.mp hr⟩

/-- Redis with nothing going wrong. -/
def redisHandler (s : Server String String) (op : RedisOp) :
    redisSig.Answer op × Server String String :=
  match op with
  | .setNx key token ttlSeconds => setNx s key token ttlSeconds
  | .release key token => (.ok (), s.giveUp key token)
  | .elsewhere _ => (.error (.storeError "not modelled"), s)

theorem redisHandler_follows : Follows redisServer redisHandler := by
  intro s op
  cases op with
  | setNx key token ttlSeconds => exact .inl rfl
  | release key token => exact .inl ⟨rfl, rfl⟩
  | elsewhere op => rfl

/-- Two submits of one order, the second while the first is inside. -/
def sampleCallers : Pool redisSig (Server String String) Bool :=
  callers (fun _ => "exe:submit:o-1") (fun i => bif i then "second" else "first") 5
    (fun _ _ => .ret ()) 0

theorem sample_exclusive :
    let P := runPool redisHandler [false, true] sampleCallers
    P.state.holder "exe:submit:o-1" = some "first" ∧
      P.trace.map (fun x => x.1) = [false, true] := by
  have hruns : ∀ is P, PoolReach redisServer passes P (runPool redisHandler is P) :=
    fun is (P : Pool redisSig (Server String String) Bool) => runPool_reach redisHandler_follows is P
  have htoken : Function.Injective fun i : Bool => bif i then "second" else "first" := by
    intro i j h
    cases i <;> cases j <;> simp_all
  have hfirst : PoolStep redisServer passes sampleCallers
      (runPool redisHandler [false] sampleCallers) :=
    .thread false rfl
      (redisHandler_follows sampleCallers.state (.setNx "exe:submit:o-1" "first" 5))
  refine ⟨(single_flight_exclusive htoken 5 _ 0 (hruns _ _)).1 false ⟨?_, ?_⟩, rfl⟩
  · exact ⟨sampleCallers, runPool redisHandler [false] sampleCallers, .refl, hfirst, rfl,
      hruns [true] _, by decide⟩
  · intro r hmem
    rcases List.mem_cons.mp hmem with h | hmem
    · cases h
    · cases List.mem_singleton.mp hmem

end ExecutionEngine.SingleFlight
