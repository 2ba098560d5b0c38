import Mathlib.Data.List.AList
import TalonRPC.Bytes.Fields
import TalonRPC.Rpc.Replies

/-!
# Registered services

A service is registered under its full name, and each of its methods is published to the service
discovery under the full name of the service, a dot and the name of the method. A client sends the
same name in a request. The dispatcher takes it apart at the first dot, so it finds the service
only if the full name of the service has no dot itself: a service of a package is never reached.

## Main definitions

* `DescribedService`, `registerService`: a service with its full name, and what registering it does
* `resolve`: the service and the method that the dispatcher finds for a name
* `LastOfItsName regs S`: no service registered after `S` has the full name of `S`

## Main results

* `lookup_registered`: the services in the map after any registrations
* `dispatch_stage_iff`: the handler is called for the method that `resolve` finds
* `resolve_methodFullName_iff`: a method is found by its full name exactly if the full name of its
  service has no dot, and the service has not been replaced
-/

namespace TalonRPC

open RpcDispatcher

/-- A registered service with the full name of its descriptor. -/
structure DescribedService extends Service where
  fullName : ByteString

namespace DescribedService

/-- `full_name()` of a method: what `registerService` publishes, and what `CallMethod` sends. -/
def methodFullName (S : DescribedService) (method : ByteString) : ByteString :=
  S.fullName ++ 0x2e :: method

/-- The method is one of the service. -/
def HasMethod (S : DescribedService) (method : ByteString) : Prop :=
  (S.methods.lookup method).isSome

end DescribedService

/-- `m_service_map`, and the names that have been published to the service discovery. -/
structure Registry where
  serviceMap : AList fun _ : ByteString => DescribedService := ∅
  published : List ByteString := []

namespace Registry

/-- `RpcDispatcher::registerService`. -/
def registerService (r : Registry) (service : DescribedService) : Registry :=
  { serviceMap := r.serviceMap.insert service.fullName service,
    published := r.published ++ service.methods.map fun method => service.methodFullName method.1 }

/-- The registry after the services `regs` have been registered in this order. -/
def registered (regs : List DescribedService) : Registry := regs.foldl registerService {}

/-- The services as `dispatch` looks them up. -/
def services (r : Registry) : List (ByteString × Service) :=
  r.serviceMap.entries.map fun entry => (entry.1, entry.2.toService)

/-- The service and the method that the dispatcher finds for the name in a request. -/
def resolve (r : Registry) (fullName : ByteString) : Option (DescribedService × ByteString) :=
  match parseServiceFullName fullName with
  | none => none
  | some name =>
    match r.serviceMap.lookup name.1 with
    | none => none
    | some service =>
      if (service.methods.lookup name.2).isSome then some (service, name.2) else none

end Registry

/-- No service registered after `S` has the full name of `S`. -/
def LastOfItsName (regs : List DescribedService) (S : DescribedService) : Prop :=
  ∃ before after, regs = before ++ S :: after ∧ ∀ T ∈ after, T.fullName ≠ S.fullName

open Registry

/-! ## The map -/

section Map

variable {regs : List DescribedService} {S T : DescribedService} {name : ByteString}

theorem registered_snoc (regs : List DescribedService) (S : DescribedService) :
    registered (regs ++ [S]) = (registered regs).registerService S := by
  unfold registered
  rw [List.foldl_append]
  rfl

theorem lookup_registerService (r : Registry) (S : DescribedService) (name : ByteString) :
    (r.registerService S).serviceMap.lookup name =
      if name = S.fullName then some S else r.serviceMap.lookup name := by
  split_ifs with h
  · subst h
    exact AList.lookup_insert _
  · exact AList.lookup_insert_ne h

/-- **The services in the map**: under each name the last service registered with it. -/
theorem lookup_registered :
    (registered regs).serviceMap.lookup name = some S ↔
      S.fullName = name ∧ LastOfItsName regs S := by
  induction regs using List.reverseRecOn with
  | nil =>
    constructor
    · intro h
      cases h
    · rintro ⟨-, before, after, h, -⟩
      simp at h
  | append_singleton regs T ih =>
    rw [registered_snoc, lookup_registerService]
    constructor
    · intro h
      split_ifs at h with hname
      · obtain rfl := Option.some.inj h
        exact ⟨hname.symm, regs, [], rfl, by simp⟩
      · obtain ⟨hS, before, after, rfl, hafter⟩ := ih.mp h
        refine ⟨hS, before, after ++ [T], by simp, ?_⟩
        intro U hU
        rcases List.mem_append.mp hU with hU | hU
        · exact hafter U hU
        · obtain rfl := List.mem_singleton.mp hU
          exact fun heq => hname (hS ▸ heq.symm)
    · rintro ⟨rfl, before, after, hregs, hafter⟩
      -- `T` is either `S` itself or a later service, which has another name.
      rcases List.eq_nil_or_concat' after with rfl | ⟨after, U, rfl⟩
      · obtain ⟨-, hT⟩ := List.append_inj' hregs rfl
        obtain rfl := (List.cons.inj hT).1
        exact if_pos rfl
      · rw [← List.cons_append, ← List.append_assoc] at hregs
        obtain ⟨hsplit, hT⟩ := List.append_inj' hregs rfl
        obtain rfl := (List.cons.inj hT).1
        have hne : T.fullName ≠ S.fullName := hafter T (by simp)
        rw [if_neg (Ne.symm hne)]
        refine ih.mpr ⟨rfl, before, after, hsplit, ?_⟩
        exact fun U hU => hafter U (List.mem_append_left _ hU)

/-- Every method of a registered service is published under its full name. -/
theorem mem_published {method : ByteString} (hS : S ∈ regs) (hmethod : S.HasMethod method) :
    S.methodFullName method ∈ (registered regs).published := by
  induction regs using List.reverseRecOn with
  | nil => cases hS
  | append_singleton regs T ih =>
    rw [registered_snoc]
    apply List.mem_append.mpr
    rcases List.mem_append.mp hS with hS | hS
    · exact .inl (ih hS)
    · obtain rfl := List.mem_singleton.mp hS
      obtain ⟨parses, hlookup⟩ := Option.isSome_iff_exists.mp hmethod
      obtain ⟨before, after, hsplit, -⟩ := List.lookup_eq_some_iff.mp hlookup
      exact .inr (List.mem_map.mpr ⟨(method, parses), by simp [hsplit], rfl⟩)

end Map

/-! ## Resolving a name -/

section Resolve

variable {regs : List DescribedService} {S : DescribedService} {method : ByteString}

/-- The name a client sends is taken apart at the first dot. -/
theorem parseServiceFullName_append {front rest : ByteString} (hfront : 0x2e ∉ front) :
    parseServiceFullName (front ++ 0x2e :: rest) = some (front, rest) := by
  unfold parseServiceFullName
  rw [if_neg (by simp), if_neg (by simp), Bytes.takeWhile_ne_append hfront,
    Bytes.dropWhile_ne_append hfront]
  rfl

/-- The services `dispatch` gets are those of the map. -/
theorem lookup_services (r : Registry) (name : ByteString) :
    r.services.lookup name = (r.serviceMap.lookup name).map (·.toService) := by
  unfold services AList.lookup
  induction r.serviceMap.entries with
  | nil => rfl
  | cons entry entries ih =>
    rw [List.map_cons, List.lookup_cons]
    by_cases h : name = entry.1
    · subst h
      rw [beq_self_eq_true, List.dlookup_cons_eq]
      rfl
    · rw [List.dlookup_cons_ne _ _ h, ← ih, beq_false_of_ne h]

/-- What `resolve` finds is a service of the map, with one of its methods. -/
theorem resolve_eq_some_iff {r : Registry} {fullName : ByteString} :
    r.resolve fullName = some (S, method) ↔
      ∃ name, parseServiceFullName fullName = some name ∧
        r.serviceMap.lookup name.1 = some S ∧ S.HasMethod method ∧ name.2 = method := by
  unfold resolve DescribedService.HasMethod
  cases hname : parseServiceFullName fullName with
  | none => simp
  | some name =>
    cases hservice : r.serviceMap.lookup name.1 with
    | none => simp [hservice]
    | some service =>
      simp only [hservice]
      split_ifs with hmethod
      · constructor
        · rintro ⟨⟩
          exact ⟨name, rfl, hservice, hmethod, rfl⟩
        · rintro ⟨_, ⟨⟩, hS, -, rfl⟩
          obtain rfl := Option.some.inj (hservice.symm.trans hS)
          rfl
      · constructor
        · rintro ⟨⟩
        · rintro ⟨_, ⟨⟩, hS, hhas, rfl⟩
          obtain rfl := Option.some.inj (hservice.symm.trans hS)
          exact absurd hhas hmethod

/-- **The handler is called** for the method that `resolve` finds, if the payload parses as a
request of it. -/
theorem dispatch_stage_iff (r : Registry) (m : TinyPBProtocol) :
    (dispatch r.services m).stage = .running ↔
      ∃ S method parses, r.resolve m.methodName = some (S, method) ∧
        S.methods.lookup method = some parses ∧ parses m.pbData = true := by
  have hrunning : (dispatch r.services m).stage = .running ↔ Resolves r.services m := by
    obtain ⟨-, ⟨hstage, hnot⟩ | ⟨hstage, hresolves, -⟩⟩ := dispatch_cases r.services m
    · simp [hstage, hnot]
    · simp [hstage, hresolves]
  rw [hrunning]
  constructor
  · rintro ⟨name, service, parses, hname, hservice, hmethod, hparses⟩
    rw [lookup_services] at hservice
    obtain ⟨S, hS, rfl⟩ := Option.map_eq_some_iff.mp hservice
    refine ⟨S, name.2, parses, resolve_eq_some_iff.mpr ⟨name, hname, hS, ?_, rfl⟩, hmethod, hparses⟩
    exact Option.isSome_iff_exists.mpr ⟨parses, hmethod⟩
  · rintro ⟨S, method, parses, hresolve, hmethod, hparses⟩
    obtain ⟨name, hname, hS, -, rfl⟩ := resolve_eq_some_iff.mp hresolve
    refine ⟨name, S.toService, parses, hname, ?_, hmethod, hparses⟩
    rw [lookup_services, hS]
    rfl

/-- **A method by its full name.** It is published, and the name is resolved to the method and its
service, exactly if the full name of the service has no dot and no later service has taken it. -/
theorem resolve_methodFullName_iff (hS : S ∈ regs) (hmethod : S.HasMethod method) :
    (S.methodFullName method ∈ (registered regs).published ∧
        (registered regs).resolve (S.methodFullName method) = some (S, method)) ↔
      0x2e ∉ S.fullName ∧ LastOfItsName regs S := by
  have hpublished := mem_published hS hmethod
  rw [resolve_eq_some_iff]
  constructor
  · rintro ⟨-, name, hname, hlookup, -, -⟩
    obtain ⟨hfull, hlast⟩ := lookup_registered.mp hlookup
    refine ⟨fun hdot => ?_, hlast⟩
    -- The service found has the name before the first dot, which is shorter.
    obtain ⟨front, rest, hsplit, hfront⟩ := List.eq_append_cons_of_mem hdot
    have happ : S.methodFullName method = front ++ 0x2e :: (rest ++ 0x2e :: method) := by
      simp [DescribedService.methodFullName, hsplit]
    rw [happ, parseServiceFullName_append hfront] at hname
    obtain rfl := Option.some.inj hname
    rw [hsplit] at hfull
    simp at hfull
  · rintro ⟨hdot, hlast⟩
    refine ⟨hpublished, (S.fullName, method), parseServiceFullName_append hdot, ?_, hmethod, rfl⟩
    exact lookup_registered.mpr ⟨rfl, hlast⟩

/-- A service with the method `makeOrder`. -/
def orderService (fullName : String) : DescribedService :=
  { methods := [(ascii "makeOrder", fun _ => true)], fullName := ascii fullName }

/-- A service that is in no package: its method is published and found, and a request calls it. -/
theorem resolve_methodFullName_order :
    (orderService "Order").methodFullName (ascii "makeOrder") ∈
        (registered [orderService "Order"]).published ∧
      (registered [orderService "Order"]).resolve
          ((orderService "Order").methodFullName (ascii "makeOrder")) =
        some (orderService "Order", ascii "makeOrder") ∧
      (dispatch (registered [orderService "Order"]).services
        { methodName := ascii "Order.makeOrder" }).stage = .running := by
  have hmethod : (orderService "Order").HasMethod (ascii "makeOrder") := by
    unfold DescribedService.HasMethod
    decide
  obtain ⟨hpublished, hresolve⟩ :=
    (resolve_methodFullName_iff (List.mem_singleton_self _) hmethod).mpr
      ⟨by decide, [], [], rfl, by simp⟩
  have hname : (orderService "Order").methodFullName (ascii "makeOrder") =
      ascii "Order.makeOrder" := by decide
  refine ⟨hpublished, hresolve, (dispatch_stage_iff _ _).mpr ?_⟩
  exact ⟨_, _, fun _ => true, hname ▸ hresolve, List.lookup_cons_self, rfl⟩

/-- `shop.Order.makeOrder` is published, but requests for it find no service. -/
theorem resolve_packaged_order :
    ¬ ∀ (regs : List DescribedService) (S : DescribedService) (method : ByteString),
      S ∈ regs → S.HasMethod method →
        S.methodFullName method ∈ (registered regs).published ∧
          (registered regs).resolve (S.methodFullName method) = some (S, method) := by
  intro h
  have hmethod : (orderService "shop.Order").HasMethod (ascii "makeOrder") := by
    unfold DescribedService.HasMethod
    decide
  obtain ⟨-, hresolve⟩ :=
    h [orderService "shop.Order"] (orderService "shop.Order") _ (by simp) hmethod
  have hnone : ((registered [orderService "shop.Order"]).resolve
      ((orderService "shop.Order").methodFullName (ascii "makeOrder"))).isNone := by
    decide
  simp [hresolve] at hnone

end Resolve

end TalonRPC
