import RobotServer.Model.World
import RobotServer.Serving.Arrival

/-!
# Redis — a store that never fails

`LawfulRedis E store` is what the handlers rely on of redis while it works: it is a map, `GET`
reads it, `SET` and `DEL` change one key, and no other operation touches it.  The wrappers of
`ApolloRedis.c` get one specification each.
-/

namespace RobotServer

open CText Interaction

/-! ## The assumption -/

/-- The operations that change redis. -/
def Op.writesRedis : Op → Bool
  | .redisSet _ _ => true
  | .redisDel _ => true
  | _ => false

/-- Redis as a map that is read off the state of the environment. -/
structure LawfulRedis {σ : Type} (E : Environment serverInterface σ)
    (store : σ → Text → Option Text) : Prop where
  get : ∀ s key, (E.answer (.redisGet key) s).1 = store s key
  set : ∀ s key value, (E.answer (.redisSet key value) s).1 = true
  store_set : ∀ s key value,
    store (E.answer (.redisSet key value) s).2 = Function.update (store s) key (some value)
  store_del : ∀ s key, store (E.answer (.redisDel key) s).2 = Function.update (store s) key none
  store_other : ∀ s o, o.writesRedis = false → store (E.answer o s).2 = store s

theorem World.redis_setRedis_eq (w : World) (key : Text) (value : Option Text) :
    (w.setRedis key value).redis = Function.update w.redis key value := by
  funext k
  by_cases hk : k = key
  · rw [hk, Function.update_self]
    exact if_pos rfl
  · rw [Function.update_of_ne hk]
    exact if_neg hk

/-- A statement does not touch redis. -/
theorem World.redis_execute (w : World) (sql : Sql) (args : List Text) :
    (w.execute sql args).redis = w.redis := by
  unfold World.execute
  split
  · rfl
  · rfl
  · rfl
  · rfl

theorem world_lawfulRedis : LawfulRedis world World.redis where
  get := fun _ _ => rfl
  set := fun _ _ _ => rfl
  store_set := fun w key value => w.redis_setRedis_eq key (some value)
  store_del := fun w key => w.redis_setRedis_eq key none
  store_other := by
    intro w o ho
    cases o with
    | execute sql args => exact w.redis_execute sql args
    | redisSet key value => cases ho
    | redisDel key => cases ho
    | _ => rfl

/-! ## The wrappers -/

section Wrappers

variable {σ : Type} {E : Environment serverInterface σ} {store : σ → Text → Option Text}

/-- Any operation but a `SET` or a `DEL`. -/
theorem perform_ensures (hredis : LawfulRedis E store) {o : Op} (ho : o.writesRedis = false)
    (s : σ) :
    Program.Ensures E (perform o) s fun trace _ s' => trace = [o] ∧ store s' = store s :=
  .call (.ret ⟨rfl, hredis.store_other s o ho⟩)

theorem getValueFromredis_ensures (hredis : LawfulRedis E store) (key : Text) (s : σ) :
    Program.Ensures E (getValueFromredis key) s fun trace value s' =>
      repliesOf trace = [] ∧ store s' = store s ∧
        value = (store s key).map fun str => (cstr str).take (redisCommandLength - 2) := by
  have hget := hredis.get s key
  have hstore := hredis.store_other s (.redisGet key) rfl
  apply Program.Ensures.call
  rw [hget]
  cases hvalue : store s key with
  | none => exact .ret ⟨rfl, hstore, rfl⟩
  | some str => exact .ret ⟨rfl, hstore, rfl⟩

theorem setKeyToredis_ensures (hredis : LawfulRedis E store) (key value : Text) (s : σ) :
    Program.Ensures E (setKeyToredis key value) s fun trace result s' =>
      repliesOf trace = [] ∧ result = 0 ∧
        store s' = Function.update (store s) key (some value) := by
  apply Program.Ensures.call
  rw [hredis.set s key value]
  exact .ret ⟨rfl, rfl, hredis.store_set s key value⟩

theorem delRedisKey_ensures (hredis : LawfulRedis E store) (key : Text) (s : σ) :
    Program.Ensures E (delRedisKey key) s fun trace _ s' =>
      repliesOf trace = [] ∧ store s' = Function.update (store s) key none :=
  .call (.ret ⟨rfl, hredis.store_del s key⟩)

theorem sendReply_ensures (hredis : LawfulRedis E store) (buffer : List Byte) (s : σ) :
    Program.Ensures E (apolloReturnPacket buffer) s fun trace _ s' =>
      repliesOf trace = [buffer] ∧ store s' = store s :=
  apolloReturnPacket_ensures store (hredis.store_other · _ rfl) (hredis.store_other · _ rfl) s

end Wrappers

end RobotServer
