import Masque.ConnectUdp.PercentCoding

/-!
# Query parameters

The loop of `from_uri` over the parts of the query. What it returns depends on which
parameters there are and not on their order: it succeeds exactly when the parts that are
not empty are, in some order, one target host, one target port and at most one
configuration, each with a valid value.
-/

namespace Masque.ConnectUdpRequest

open Outcome Utf8

/-- A query parameter with its key and its decoded value. -/
def Parameter (pair key value : String) : Prop :=
  ∃ raw, pair = key ++ "=" ++ raw ∧ '=' ∉ key.toList ∧ Decodes (bytes raw) (bytes value)

def HostParameter (ip : IpFromStr) (pair host : String) : Prop :=
  ∃ value, Parameter pair "target_host" value ∧ host = Str.trim value ∧
    validateTargetHost ip value = .ok host

def PortParameter (pair : String) (port : UInt16) : Prop :=
  ∃ value, Parameter pair "target_port" value ∧ Port value port

def ConfigParameter (pair config : String) : Prop :=
  Parameter pair "udp_proxy_config" config ∧ validateUdpProxyConfig config = .ok config

/-- At most one part is a parameter of its kind; its value, if it is there, is `a`. -/
def AtMostOne {α : Type} (P : String → α → Prop) (pairs : List String) (a : Option α) : Prop :=
  (pairs = [] ∧ a = none) ∨ ∃ pair x, pairs = [pair] ∧ P pair x ∧ a = some x

/-- The parts of a query that are not empty, in any order. -/
def Query (ip : IpFromStr) (pairs : List String) (request : ConnectUdpRequest) : Prop :=
  ∃ host port configs, List.Perm (pairs.filter (· ≠ "")) (host :: port :: configs) ∧
    HostParameter ip host request.targetHost ∧ PortParameter port request.targetPort ∧
    AtMostOne ConfigParameter configs request.udpProxyConfig

/-- The order of the parts does not matter. -/
theorem Query.perm {ip : IpFromStr} {pairs pairs' : List String} {request : ConnectUdpRequest}
    (h : pairs.Perm pairs') (hquery : Query ip pairs request) : Query ip pairs' request := by
  obtain ⟨host, port, configs, hperm, hrest⟩ := hquery
  exact ⟨host, port, configs, (h.filter _).symm.trans hperm, hrest⟩

/-! ## One parameter -/

variable {ip : IpFromStr} {params params' : Params}

/-- What one part adds to the parameters seen so far. -/
inductive Adds (ip : IpFromStr) (params : Params) (pair : String) : Params → Prop
  | host {host : String} (hnew : params.targetHost = none) (h : HostParameter ip pair host) :
      Adds ip params pair { params with targetHost := some host }
  | port {port : UInt16} (hnew : params.targetPort = none) (h : PortParameter pair port) :
      Adds ip params pair { params with targetPort := some port }
  | config {config : String} (hnew : params.udpProxyConfig = none)
      (h : ConfigParameter pair config) :
      Adds ip params pair { params with udpProxyConfig := some config }

theorem splitOnce_parameter {key raw : String} (h : '=' ∉ key.toList) :
    Str.splitOnce (key ++ "=" ++ raw) '=' = some (key, raw) := by
  refine Str.splitOnce_eq_some.mpr ⟨?_, h⟩
  simp

theorem pair_ne (key value : String) : key ++ "=" ++ value ≠ "" := by
  intro h
  have := congrArg String.toList h
  simp at this

/-- A part that is a parameter is split into its key and its value. -/
theorem Parameter.readPair_eq {pair key value : String} (h : Parameter pair key value) :
    readPair ip params pair = setParam ip params key value := by
  obtain ⟨raw, rfl, hkey, hdecodes⟩ := h
  unfold readPair
  rw [if_neg (pair_ne key raw), splitOnce_parameter hkey, ofOption_some, ok_bind]
  dsimp only
  rw [decodeQueryValue_eq_ok.mpr hdecodes, mapErr_ok, ok_bind]

/-- A part that is accepted and not empty is a parameter. -/
theorem exists_parameter {pair : String} (hne : pair ≠ "")
    (h : readPair ip params pair = .ok params') : ∃ key value, Parameter pair key value := by
  unfold readPair at h
  rw [if_neg hne] at h
  obtain ⟨⟨key, raw⟩, hsplit, h⟩ := bind_eq_ok.mp h
  obtain ⟨value, hvalue, -⟩ := bind_eq_ok.mp h
  obtain ⟨hpair, hkey⟩ := Str.splitOnce_eq_some.mp (ofOption_eq_ok.mp hsplit)
  refine ⟨key, value, raw, String.toList_inj.mp ?_, hkey,
    decodeQueryValue_eq_ok.mp (mapErr_eq_ok.mp hvalue)⟩
  rw [hpair]
  simp

/-- Each arm of the `match` adds the parameter of its key. -/
theorem adds_of_setParam {pair key value : String} (hparam : Parameter pair key value)
    (h : setParam ip params key value = .ok params') : Adds ip params pair params' := by
  unfold setParam at h
  split_ifs at h with hhost hseen hport hseen hconfig hseen
  · cases h
  · obtain ⟨host, hok, h⟩ := bind_eq_ok.mp h
    obtain rfl := ok.inj h
    exact .host (by simpa using hseen)
      ⟨value, hhost ▸ hparam, (validateTargetHost_eq_ok.mp hok).1, hok⟩
  · cases h
  · obtain ⟨port, hok, h⟩ := bind_eq_ok.mp h
    obtain ⟨u, hzero, h⟩ := bind_eq_ok.mp h
    obtain rfl := ok.inj h
    exact .port (by simpa using hseen) ⟨value, hport ▸ hparam,
      parseTargetPort_eq_ok.mp ⟨hok, validateTargetPort_eq_ok.mp hzero⟩⟩
  · cases h
  · obtain ⟨config, hok, h⟩ := bind_eq_ok.mp h
    obtain rfl := ok.inj h
    obtain ⟨rfl, -⟩ := validateUdpProxyConfig_eq_ok.mp hok
    exact .config (by simpa using hseen) ⟨hconfig ▸ hparam, hok⟩
  · cases h

/-- A round of the loop succeeds exactly when its part adds a parameter. -/
theorem readPair_eq_ok {pair : String} (hne : pair ≠ "") :
    readPair ip params pair = .ok params' ↔ Adds ip params pair params' := by
  constructor
  · intro h
    obtain ⟨key, value, hparam⟩ := exists_parameter hne h
    rw [hparam.readPair_eq] at h
    exact adds_of_setParam hparam h
  · intro h
    cases h with
    | host hnew h =>
      obtain ⟨value, hparam, -, hhost⟩ := h
      rw [hparam.readPair_eq]
      unfold setParam
      rw [if_pos rfl, hnew, Option.isSome_none, if_neg Bool.false_ne_true, hhost]
      rfl
    | port hnew h =>
      obtain ⟨value, hparam, hport⟩ := h
      obtain ⟨hparse, hzero⟩ := parseTargetPort_eq_ok.mpr hport
      rw [hparam.readPair_eq]
      unfold setParam
      rw [if_neg (by decide), if_pos rfl, hnew, Option.isSome_none, if_neg Bool.false_ne_true,
        hparse, ok_bind, validateTargetPort_eq_ok.mpr hzero]
      rfl
    | config hnew h =>
      obtain ⟨hparam, hconfig⟩ := h
      rw [hparam.readPair_eq]
      unfold setParam
      rw [if_neg (by decide), if_neg (by decide), if_pos rfl, hnew, Option.isSome_none,
        if_neg Bool.false_ne_true, hconfig]
      rfl

/-! ## The loop -/

/-- `pairs` take one parameter from the value `a` to the value `b`: there are none, or one
that is the first of its kind. -/
def Extends {α : Type} (P : String → α → Prop) (pairs : List String) (a b : Option α) : Prop :=
  (pairs = [] ∧ b = a) ∨ a = none ∧ ∃ pair x, pairs = [pair] ∧ P pair x ∧ b = some x

section Extends

variable {α : Type} {P : String → α → Prop} {pairs : List String} {a b : Option α} {x : α}

theorem extends_some : Extends P pairs (some x) b ↔ pairs = [] ∧ b = some x := by
  simp [Extends]

theorem extends_none : Extends P pairs none b ↔ AtMostOne P pairs b := by
  simp [Extends, AtMostOne]

theorem Extends.of_mem {pair : String} (h : Extends P pairs a b) (hpair : pair ∈ pairs) :
    pairs = [pair] ∧ a = none ∧ ∃ x, P pair x ∧ b = some x := by
  rcases h with ⟨rfl, -⟩ | ⟨ha, pair', x, rfl, hx, hb⟩
  · cases hpair
  · obtain rfl := List.mem_singleton.mp hpair
    exact ⟨rfl, ha, x, hx, hb⟩

theorem Extends.refl (P : String → α → Prop) (a : Option α) : Extends P [] a a :=
  .inl ⟨rfl, rfl⟩

theorem Extends.single {pair : String} (h : P pair x) : Extends P [pair] none (some x) :=
  .inr ⟨rfl, pair, x, rfl, h, rfl⟩

end Extends

/-- The parts in `pairs` take the parameters seen from `params` to `final`. -/
def Reaches (ip : IpFromStr) (pairs : List String) (params final : Params) : Prop :=
  ∃ hosts ports configs, List.Perm pairs (hosts ++ ports ++ configs) ∧
    Extends (HostParameter ip) hosts params.targetHost final.targetHost ∧
    Extends PortParameter ports params.targetPort final.targetPort ∧
    Extends ConfigParameter configs params.udpProxyConfig final.udpProxyConfig

theorem Reaches.nil_iff {final : Params} : Reaches ip [] params final ↔ final = params := by
  constructor
  · rintro ⟨hosts, ports, configs, hperm, hhost, hport, hconfig⟩
    have hnil := hperm.nil_eq.symm
    simp only [List.append_eq_nil_iff] at hnil
    obtain ⟨⟨rfl, rfl⟩, rfl⟩ := hnil
    have hhost := hhost.resolve_right (by simp)
    have hport := hport.resolve_right (by simp)
    have hconfig := hconfig.resolve_right (by simp)
    cases final
    cases params
    simp_all
  · rintro rfl
    exact ⟨[], [], [], .nil, .refl _ _, .refl _ _, .refl _ _⟩

/-- The first part adds its parameter and the others do the rest. -/
theorem Reaches.cons_iff {pair : String} {pairs : List String} {final : Params} :
    Reaches ip (pair :: pairs) params final ↔
      ∃ next, Adds ip params pair next ∧ Reaches ip pairs next final := by
  constructor
  · rintro ⟨hosts, ports, configs, hperm, hhost, hport, hconfig⟩
    have hmem : pair ∈ hosts ++ ports ++ configs := hperm.subset List.mem_cons_self
    rw [List.mem_append, List.mem_append] at hmem
    -- The first part is the one of its kind, so none of this kind is left behind it.
    rcases hmem with (hmem | hmem) | hmem
    · obtain ⟨rfl, hnew, host, hx, hfinal⟩ := hhost.of_mem hmem
      refine ⟨_, .host hnew hx, [], ports, configs, ?_, ?_, hport, hconfig⟩
      · exact hperm.cons_inv
      · exact extends_some.mpr ⟨rfl, hfinal⟩
    · obtain ⟨rfl, hnew, port, hx, hfinal⟩ := hport.of_mem hmem
      refine ⟨_, .port hnew hx, hosts, [], configs, ?_, hhost, ?_, hconfig⟩
      · refine List.Perm.cons_inv (hperm.trans ?_)
        simp
      · exact extends_some.mpr ⟨rfl, hfinal⟩
    · obtain ⟨rfl, hnew, config, hx, hfinal⟩ := hconfig.of_mem hmem
      refine ⟨_, .config hnew hx, hosts, ports, [], ?_, hhost, hport, ?_⟩
      · exact List.Perm.cons_inv (hperm.trans List.perm_middle)
      · exact extends_some.mpr ⟨rfl, hfinal⟩
  · rintro ⟨next, hadds, hosts, ports, configs, hperm, hhost, hport, hconfig⟩
    cases hadds with
    | host hnew hx =>
      obtain ⟨rfl, hfinal⟩ := extends_some.mp hhost
      refine ⟨[pair], ports, configs, hperm.cons pair, ?_, hport, hconfig⟩
      rw [hnew, hfinal]
      exact .single hx
    | port hnew hx =>
      obtain ⟨rfl, hfinal⟩ := extends_some.mp hport
      refine ⟨hosts, [pair], configs, (hperm.cons pair).trans ?_, hhost, ?_, hconfig⟩
      · simpa using List.perm_middle.symm
      · rw [hnew, hfinal]
        exact .single hx
    | config hnew hx =>
      obtain ⟨rfl, hfinal⟩ := extends_some.mp hconfig
      refine ⟨hosts, ports, [pair], (hperm.cons pair).trans ?_, hhost, hport, ?_⟩
      · exact List.perm_middle.symm
      · rw [hnew, hfinal]
        exact .single hx

/-- The loop succeeds exactly when the parts that are not empty lead to its result. -/
theorem foldlM_readPair_eq_ok {pairs : List String} {final : Params} :
    pairs.foldlM (readPair ip) params = .ok final ↔
      Reaches ip (pairs.filter (· ≠ "")) params final := by
  induction pairs generalizing params with
  | nil =>
    rw [List.foldlM_nil, List.filter_nil, Reaches.nil_iff, pure_eq, ok.injEq, eq_comm]
  | cons pair pairs ih =>
    rw [List.foldlM_cons]
    by_cases hne : pair = ""
    · have hskip : readPair ip params pair = .ok params := if_pos hne
      rw [hskip, ok_bind, ih, List.filter_cons_of_neg (by simp [hne])]
    · rw [List.filter_cons_of_pos (by simp [hne]), Reaches.cons_iff, bind_eq_ok]
      simp only [readPair_eq_ok hne, ih]

/-- The loop over a whole query reads a request exactly when the query holds one. -/
theorem query_iff {pairs : List String} {host : String} {port : UInt16}
    {config : Option String} :
    pairs.foldlM (readPair ip) Params.empty = .ok ⟨some host, some port, config⟩ ↔
      Query ip pairs ⟨host, port, config⟩ := by
  rw [foldlM_readPair_eq_ok]
  constructor
  · rintro ⟨hosts, ports, configs, hperm, hhost, hport, hconfig⟩
    obtain ⟨pairh, _, rfl, hhost, hxh⟩ := (extends_none.mp hhost).resolve_left (by simp)
    obtain ⟨pairp, _, rfl, hport, hxp⟩ := (extends_none.mp hport).resolve_left (by simp)
    obtain rfl := Option.some.inj hxh
    obtain rfl := Option.some.inj hxp
    exact ⟨pairh, pairp, configs, hperm, hhost, hport, extends_none.mp hconfig⟩
  · rintro ⟨pairh, pairp, configs, hperm, hhost, hport, hconfig⟩
    exact ⟨[pairh], [pairp], configs, hperm, .single hhost, .single hport,
      extends_none.mpr hconfig⟩

end Masque.ConnectUdpRequest
