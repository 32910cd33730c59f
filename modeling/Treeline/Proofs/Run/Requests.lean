import Treeline.Proofs.Run.Delivery

/-!
# What a run asks of a cluster

A run makes one client at most and sends one request at most. It makes no client unless there is an
object to ask for, and only when nothing can be wrong any more with its command line, its settings
and its path. It sends no request unless it finds a resource that serves the kind of the object.
-/

namespace Treeline

variable {world : World} {words : List String} {c : Command} {kind name : String}
  {cluster : Cluster} {space : Argument} {timeout : Option Timeout} {cause : FetchError}

/-! ### Events -/

namespace Event

variable {first rest : List Event} {as bs : List Connection} {qs rs : List Request}

/-- Some events are these connections and these requests, and notes between them. -/
def Ask (events : List Event) (as : List Connection) (qs : List Request) : Prop :=
  connections events = as ∧ requests events = qs

theorem Ask.append (h : Ask first as qs) (h' : Ask rest bs rs) :
    Ask (first ++ rest) (as ++ bs) (qs ++ rs) := by
  rw [Ask, connections, requests, List.filterMap_append, List.filterMap_append]
  exact ⟨congrArg₂ _ h.1 h'.1, congrArg₂ _ h.2 h'.2⟩

theorem ask_nil : Ask [] [] [] := ⟨rfl, rfl⟩

theorem ask_noted (note : Note) : Ask [.noted note] [] [] := ⟨rfl, rfl⟩

theorem ask_map_noted {α : Type} (items : List α) (note : Note) :
    Ask (items.map fun _ => .noted note) [] [] := by
  induction items with
  | nil => exact ask_nil
  | cons item items ih => exact (ask_noted note).append ih

end Event

open Event

/-- What comes after a computation does not change what has been asked if it asks nobody. -/
theorem ask_bind {ε α β : Type} {x : Traced Event ε α} {f : α → Traced Event ε β}
    {as : List Connection} {qs : List Request} (hx : Ask x.events as qs)
    (hquiet : ∀ a, Ask (f a).events [] []) : Ask (x >>= f).events as qs := by
  cases hresult : x.result with
  | error stop =>
    rw [Traced.events_bind_of_error hresult]
    exact hx
  | ok a =>
    have hall := hx.append (hquiet a)
    rw [List.append_nil, List.append_nil] at hall
    rw [Traced.events_bind_of_ok hresult]
    exact hall

/-! ### Fetching -/

/-- The request for an object, if a resource serves its kind. -/
def Cluster.request? (cluster : Cluster) (kind : String) (space : Argument) (name : String)
    (timeout : Option Timeout) : Option Request :=
  match cluster.find kind with
  | .ok resource => some (.ofNames resource space name timeout)
  | .error _ => none

theorem Cluster.ask_fetch (cluster : Cluster) (kind : String) (space : Argument) (name : String)
    (timeout : Option Timeout) :
    Ask (cluster.fetch kind space name timeout).events []
      (cluster.request? kind space name timeout).toList := by
  rw [fetch, request?]
  cases cluster.find kind with
  | error cause => exact ask_nil
  | ok resource =>
    rw [Traced.events_bind_of_ok rfl, Traced.events_bind_of_ok rfl, Traced.events_bind_of_ok rfl]
    refine .append ask_nil (.append (ask_noted _) (.append ⟨rfl, rfl⟩ ?_))
    exact ask_bind ask_nil fun object => ask_noted _

/-- Whether there was no request yet when fetching failed. -/
def FetchError.isBeforeRequest : FetchError → Bool
  | .refused _ _ => false
  | _ => true

theorem Cluster.request?_of_fetch
    (h : (cluster.fetch kind space name timeout).result = .error cause)
    (hbefore : cause.isBeforeRequest = true) : cluster.request? kind space name timeout = none := by
  rw [fetch] at h
  rw [request?]
  cases hfind : cluster.find kind with
  | error cause => rfl
  | ok resource =>
    rw [hfind] at h
    -- with a resource, only the request itself can fail, and then it has been sent
    obtain ⟨⟨⟩⟩ | ⟨_, ⟨⟩, h⟩ := Traced.result_bind_eq_error_iff.1 h
    obtain ⟨⟨⟩⟩ | ⟨_, ⟨⟩, h⟩ := Traced.result_bind_eq_error_iff.1 h
    obtain ⟨⟨⟩⟩ | ⟨_, ⟨⟩, h⟩ := Traced.result_bind_eq_error_iff.1 h
    obtain h | ⟨object, -, h⟩ := Traced.result_bind_eq_error_iff.1 h
    · obtain ⟨failure, -, rfl⟩ := mapError_eq_error_iff.1 h
      cases hbefore
    · obtain ⟨⟨⟩⟩ | ⟨_, -, ⟨⟩⟩ := Traced.result_bind_eq_error_iff.1 h

/-! ### Commands -/

namespace Command

/-- The connection that a command needs. -/
def connection? (c : Command) : Option Connection :=
  match c.source with
  | .file _ => none
  | .object _ _ => some c.connection

/-- The request that a command leads to, if it reaches a cluster that serves the kind. -/
def request? (world : World) (c : Command) : Option Request :=
  match c.source with
  | .file _ => none
  | .object kind name =>
    match world.connect c.connection with
    | .error _ => none
    | .ok cluster => cluster.request? kind c.space (Text.lowercase name) c.timeout

/-- Getting the documents asks for what the command needs and for nothing else. -/
theorem ask_trees (world : World) (c : Command) :
    Ask (c.trees world).events c.connection?.toList (c.request? world).toList := by
  rw [Command.trees, connection?, request?]
  cases c.source with
  | file name => exact ask_bind ask_nil fun trees => ask_noted _
  | object kind name =>
    dsimp only
    rw [Traced.events_bind_of_ok rfl]
    change Ask _ ([c.connection] ++ []) ([] ++ _)
    refine .append ⟨rfl, rfl⟩ ?_
    cases world.connect c.connection with
    | error cause => exact ask_nil
    | ok cluster =>
      rw [Traced.events_bind_of_ok rfl]
      refine .append ask_nil (ask_bind (cluster.ask_fetch kind c.space _ c.timeout) ?_)
      exact fun object => ask_bind ask_nil fun tree => ask_noted _

theorem ask_flattened (c : Command) (path : Path) (keys : List String) (trees : List Tree) :
    Ask (c.flattened path keys trees).events [] [] := by
  unfold flattened
  cases c.depth with
  | some depth => exact ask_map_noted _ _
  | none =>
    cases trees with
    | nil => exact ask_nil
    | cons root rest => exact ask_bind ask_nil fun node => ask_bind (ask_noted _) fun _ => ask_nil

/-- A command asks for what it needs if its path and its keys can be read. -/
theorem ask_lines (h : c.IsReady) (world : World) :
    Ask (c.lines world).events c.connection?.toList (c.request? world).toList := by
  obtain ⟨⟨path, hpath⟩, keys, hkeys⟩ := h
  rw [lines, hpath, hkeys, Traced.events_bind_of_ok rfl]
  refine .append ask_nil ?_
  rw [Traced.events_bind_of_ok rfl]
  exact .append ask_nil (ask_bind (c.ask_trees world) (c.ask_flattened path keys))

theorem ask_lines_of_not_ready (h : ¬c.IsReady) (world : World) :
    Ask (c.lines world).events [] [] := by
  rw [lines]
  cases hpath : c.path with
  | error stop => exact ask_nil
  | ok path =>
    rw [Traced.events_bind_of_ok rfl]
    refine .append ask_nil ?_
    cases hkeys : c.prunedKeys with
    | error stop => exact ask_nil
    | ok keys => exact absurd ⟨⟨path, hpath⟩, keys, hkeys⟩ h

theorem request?_eq_some_iff {q : Request} :
    c.request? world = some q ↔ ∃ kind name cluster resource, c.source = .object kind name ∧
      world.connect c.connection = .ok cluster ∧ cluster.find kind = .ok resource ∧
      Request.ofNames resource c.space (Text.lowercase name) c.timeout = q := by
  rw [request?]
  cases c.source with
  | file name => simp
  | object kind name =>
    cases world.connect c.connection with
    | error cause => simp
    | ok cluster =>
      dsimp only
      rw [Cluster.request?]
      cases hfind : cluster.find kind <;> simp [hfind]

theorem request?_of_trees (h : (c.trees world).result = .error (.reported (.fetch cause)))
    (hbefore : cause.isBeforeRequest = true) : c.request? world = none := by
  rw [Command.trees] at h
  rw [request?]
  cases hsource : c.source with
  | file name => rfl
  | object kind name =>
    rw [hsource] at h
    dsimp only at h ⊢
    obtain ⟨⟨⟩⟩ | ⟨_, -, h⟩ := Traced.result_bind_eq_error_iff.1 h
    cases hconnect : world.connect c.connection with
    | error cause => rfl
    | ok cluster =>
      rw [hconnect] at h
      obtain ⟨⟨⟩⟩ | ⟨_, ⟨⟩, h⟩ := Traced.result_bind_eq_error_iff.1 h
      obtain h | ⟨object, -, h⟩ := Traced.result_bind_eq_error_iff.1 h
      · obtain ⟨cause, hfetch, ⟨⟩⟩ := mapError_eq_error_iff.1 h
        exact Cluster.request?_of_fetch hfetch hbefore
      obtain h | ⟨tree, -, h⟩ := Traced.result_bind_eq_error_iff.1 h
      · obtain ⟨cause, -, ⟨⟩⟩ := mapError_eq_reported_iff.1 h
      · obtain ⟨⟨⟩⟩ | ⟨_, -, ⟨⟩⟩ := Traced.result_bind_eq_error_iff.1 h

end Command

/-! ### Runs -/

/-- Whether a run has ended because of its command line, its settings or its path. -/
def Refusal.isEarly : Refusal → Bool
  | .help => true
  | .usage _ => true
  | .stopped (.reported (.config _)) => true
  | .stopped (.reported (.malformed _)) => true
  | _ => false

/-- A run asks for what its command needs, if there is a command that gets that far. -/
theorem ask_run (world : World) (words : List String) :
    (Ask (run world words).events [] [] ∧ ∀ c, commandOf world words = .ok c → ¬c.IsReady) ∨
      ∃ c, commandOf world words = .ok c ∧ c.IsReady ∧
        Ask (run world words).events c.connection?.toList (c.request? world).toList := by
  cases hcommand : commandOf world words with
  | error refusal =>
    rw [run, hcommand]
    refine .inl ⟨ask_nil, ?_⟩
    intro c h
    cases h
  | ok c =>
    rw [run_of_command hcommand]
    by_cases hready : c.IsReady
    · exact .inr ⟨c, rfl, hready, c.ask_lines hready world⟩
    · refine .inl ⟨c.ask_lines_of_not_ready hready world, ?_⟩
      intro c' h
      cases h
      exact hready

/-- The end of a run whose command gets as far as its documents: it does not get them, a path leads
nowhere in them, their lines cannot be written, or there is a fault. -/
theorem refusal_of_ready {refusal : Refusal} (hcommand : commandOf world words = .ok c)
    (hready : c.IsReady) (hrefusal : (run world words).refusal = some refusal) :
    (∃ e, (c.trees world).result = .error (.reported e) ∧ refusal = .stopped (.reported e)) ∨
      (∃ cause, refusal = .stopped (.reported (.unresolved cause))) ∨
      (∃ target cause, refusal = .stopped (.reported (.unwritable target cause))) ∨
      ∃ fault, refusal = .stopped (.fault fault) := by
  obtain ⟨⟨path, hpath⟩, keys, hkeys⟩ := hready
  rw [run_of_command hcommand] at hrefusal
  cases hlines : (c.lines world).result with
  | error stop =>
    rw [(run_of_stop hlines).1, Option.some.injEq] at hrefusal
    subst hrefusal
    cases stop with
    | fault f => exact .inr (.inr (.inr ⟨f, rfl⟩))
    | reported e =>
      rw [Command.result_lines_eq_error_iff, hpath] at hlines
      obtain ⟨⟨⟩⟩ | ⟨_, ⟨⟩, hlines⟩ := hlines
      rw [hkeys] at hlines
      obtain ⟨⟨⟩⟩ | ⟨_, ⟨⟩, htrees | ⟨trees, -, hflattened⟩⟩ := hlines
      · exact .inl ⟨e, htrees, rfl⟩
      · obtain ⟨cause, rfl⟩ := Command.unresolved_of_flattened hflattened
        exact .inr (.inl ⟨cause, rfl⟩)
  | ok lines =>
    rw [(run_of_asks (Command.result_lines_eq_ok_iff.1 hlines)).1] at hrefusal
    cases hdone : (deliver world c.output lines).result with
    | ok u =>
      rw [hdone] at hrefusal
      cases hrefusal
    | error stop =>
      rw [hdone] at hrefusal
      cases hrefusal
      cases stop with
      | fault f => exact .inr (.inr (.inr ⟨f, rfl⟩))
      | reported e =>
        obtain ⟨target, cause, rfl⟩ := unwritable_of_deliver hdone
        exact .inr (.inr (.inl ⟨target, cause, rfl⟩))

theorem isEarly_of_ready {refusal : Refusal} (hcommand : commandOf world words = .ok c)
    (hready : c.IsReady) (hrefusal : (run world words).refusal = some refusal) :
    refusal.isEarly = false := by
  obtain ⟨e, htrees, rfl⟩ | ⟨cause, rfl⟩ | ⟨target, cause, rfl⟩ | ⟨fault, rfl⟩ :=
    refusal_of_ready hcommand hready hrefusal
  · obtain ⟨cause, rfl⟩ | ⟨cause, rfl⟩ := Command.decode_or_fetch_of_trees htrees <;> rfl
  · rfl
  · rfl
  · rfl

theorem ask_of_file {reading : CommandLine.Reading} (hread : CommandLine.read words = .ok reading)
    (hname : (reading.word? .file).bind Argument.nonempty? = some name) :
    Ask (run world words).events [] [] := by
  obtain ⟨hnone, -⟩ | ⟨c, hcommand, -, hasked⟩ := ask_run world words
  · exact hnone
  · obtain ⟨reading', settings, hread', -, hc⟩ := commandOf_eq_ok_iff.1 hcommand
    obtain rfl := Except.ok.inj (hread.symm.trans hread')
    have hsource := CommandLine.Reading.source_of_command hc
    rw [Command.connection?, Command.request?] at hasked
    cases hc' : c.source with
    | file name' =>
      rw [hc'] at hasked
      exact hasked
    | object kind name' =>
      rw [hc', CommandLine.Reading.source_eq_object_iff, hname] at hsource
      cases hsource.1

theorem trees_of_fetch_refusal (hcommand : commandOf world words = .ok c) (hready : c.IsReady)
    (hrefusal : (run world words).refusal = some (.stopped (.reported (.fetch cause)))) :
    (c.trees world).result = .error (.reported (.fetch cause)) := by
  obtain ⟨e, htrees, ⟨⟩⟩ | ⟨_, ⟨⟩⟩ | ⟨_, _, ⟨⟩⟩ | ⟨_, ⟨⟩⟩ :=
    refusal_of_ready hcommand hready hrefusal
  exact htrees

theorem requests_of_fetch_refusal
    (hrefusal : (run world words).refusal = some (.stopped (.reported (.fetch cause))))
    (hbefore : cause.isBeforeRequest = true) : requests (run world words).events = [] := by
  obtain ⟨hnone, -⟩ | ⟨c, hcommand, hready, -, hrequests⟩ := ask_run world words
  · exact hnone.2
  · rw [hrequests, Command.request?_of_trees (trees_of_fetch_refusal hcommand hready hrefusal)
      hbefore]
    rfl

/-- A run sends the request of its command, if the command gets as far as its documents. -/
theorem mem_requests_run_iff {q : Request} :
    q ∈ requests (run world words).events ↔
      ∃ c, commandOf world words = .ok c ∧ c.IsReady ∧ c.request? world = some q := by
  obtain ⟨⟨-, hnone⟩, hnever⟩ | ⟨c, hcommand, hready, -, hrequests⟩ := ask_run world words
  · rw [hnone]
    constructor
    · exact nofun
    · rintro ⟨c, hcommand, hready, -⟩
      exact absurd hready (hnever c hcommand)
  · rw [hrequests, Option.mem_toList]
    constructor
    · exact fun h => ⟨c, hcommand, hready, h⟩
    · rintro ⟨c', hcommand', -, h⟩
      cases hcommand.symm.trans hcommand'
      exact h

theorem ofNames_eq_iff {resource : Resource} {q : Request} :
    Request.ofNames resource space name timeout = q ↔
      q.resource = resource ∧ q.name = name ∧
        q.space = (if resource.isNamespaced then some space else none) ∧
        ∀ limit, q.timeout = some limit ↔ timeout = some limit ∧ limit.isSet = true := by
  constructor
  · rintro rfl
    exact ⟨rfl, rfl, rfl, fun limit => Option.filter_eq_some_iff⟩
  · rintro ⟨hresource, hname, hspace, htimeout⟩
    obtain ⟨_, _, space', limit⟩ := q
    obtain rfl : timeout.filter Timeout.isSet = limit := by
      ext limit'
      exact Option.filter_eq_some_iff.trans (htimeout limit').symm
    dsimp only at hresource hname hspace
    subst hresource hname hspace
    rfl

/-- A run makes at most one client and sends at most one request. It makes no client if it ends
because of its command line, its settings or its path, or if a file is named. It sends no request if
there is no client, no discovery or no resource. A request goes to the resource that is found for the
kind, with the name in lower case, with the namespace if the resource has namespaces, and with the
timeout if that is a limit. -/
theorem run_sends_at_most_one_request (world : World) (words : List String) :
    (connections (run world words).events).length ≤ 1 ∧
    (requests (run world words).events).length ≤ 1 ∧
    (∀ refusal, (run world words).refusal = some refusal → refusal.isEarly = true →
      Ask (run world words).events [] []) ∧
    (∀ reading name, CommandLine.read words = .ok reading →
      (reading.word? .file).bind Argument.nonempty? = some name →
        Ask (run world words).events [] []) ∧
    (∀ cause, (run world words).refusal = some (.stopped (.reported (.fetch cause))) →
      cause.isBeforeRequest = true → requests (run world words).events = []) ∧
    ∀ q, q ∈ requests (run world words).events ↔
      ∃ reading c kind name cluster resource, CommandLine.read words = .ok reading ∧
        reading.object = [kind, name] ∧ commandOf world words = .ok c ∧ c.IsReady ∧
        c.source = .object kind name ∧ world.connect c.connection = .ok cluster ∧
        cluster.find kind = .ok resource ∧ q.resource = resource ∧ q.name = Text.lowercase name ∧
        q.space = (if resource.isNamespaced then some c.space else none) ∧
        ∀ timeout, q.timeout = some timeout ↔ c.timeout = some timeout ∧ timeout.isSet = true := by
  have hasked := ask_run world words
  refine ⟨?_, ?_, ?_, fun _ _ => ask_of_file, fun _ => requests_of_fetch_refusal, ?_⟩
  · obtain ⟨⟨hnone, -⟩, -⟩ | ⟨c, -, -, hconnections, -⟩ := hasked
    · rw [hnone]
      exact Nat.zero_le 1
    · rw [hconnections]
      exact Option.length_toList_le
  · obtain ⟨⟨-, hnone⟩, -⟩ | ⟨c, -, -, -, hrequests⟩ := hasked
    · rw [hnone]
      exact Nat.zero_le 1
    · rw [hrequests]
      exact Option.length_toList_le
  · intro refusal hrefusal hearly
    obtain ⟨hnone, -⟩ | ⟨c, hcommand, hready, -⟩ := hasked
    · exact hnone
    · rw [isEarly_of_ready hcommand hready hrefusal] at hearly
      cases hearly
  · intro q
    rw [mem_requests_run_iff]
    constructor
    · rintro ⟨c, hcommand, hready, hq⟩
      obtain ⟨kind, name, cluster, resource, hsource, hconnect, hfind, hof⟩ :=
        Command.request?_eq_some_iff.1 hq
      obtain ⟨reading, settings, hread, -, hc⟩ := commandOf_eq_ok_iff.1 hcommand
      have hobject := CommandLine.Reading.source_of_command hc
      rw [hsource, CommandLine.Reading.source_eq_object_iff] at hobject
      exact ⟨reading, c, kind, name, cluster, resource, hread, hobject.2, hcommand, hready,
        hsource, hconnect, hfind, ofNames_eq_iff.1 hof⟩
    · rintro ⟨-, c, kind, name, cluster, resource, -, -, hcommand, hready, hsource, hconnect,
        hfind, hof⟩
      exact ⟨c, hcommand, hready, Command.request?_eq_some_iff.2
        ⟨kind, name, cluster, resource, hsource, hconnect, hfind, ofNames_eq_iff.2 hof⟩⟩

def pods : Resource where
  endpoint := "pods"
  kind := "Pod"
  name := some "pods"
  singular := none
  shortNames := ["po"]
  group := some ""
  version := "v1"
  isNamespaced := true
  isPreferred := true

def onlyPods : World where
  folder := .empty
  input := []
  configPath := none
  connect := fun _ => .ok ⟨.ok [.resource pods], fun _ => .ok (.ofDatum (.dict []))⟩
  isOutputClosed := false

/-- Whether a run is refused because of what comes before a request. -/
def Refusal.isBeforeRequest : Refusal → Bool
  | .stopped (.reported (.fetch cause)) => cause.isBeforeRequest
  | _ => false

theorem exists_cause_of_any {r : Option Refusal} (h : r.any Refusal.isBeforeRequest = true) :
    ∃ cause, r = some (.stopped (.reported (.fetch cause))) ∧ cause.isBeforeRequest = true := by
  obtain _ | _ | _ | (cause | cause | cause | cause | cause | cause) | _ := r
  all_goals first | exact ⟨cause, rfl, h⟩ | cases h

/-- A pod is asked for once, by its name in lower case and in its namespace. Nobody is asked if the
path is wrong or if a file is named, and no request is sent for a kind that is not served. -/
theorem pod_is_asked_for_once :
    (∃ q, requests (run onlyPods ["PO", "Nginx", "-n", "web"]).events = [q] ∧ q.resource = pods ∧
      q.name = "nginx" ∧ q.space = some (.word "web") ∧ q.timeout = none) ∧
    Ask (run onlyPods ["po", "nginx", "-e", "]"]).events [] [] ∧
    Ask (run onlyPods ["-f", "nginx.yaml"]).events [] [] ∧
    (connections (run onlyPods ["svc", "nginx"]).events).length = 1 ∧
    requests (run onlyPods ["svc", "nginx"]).events = [] := by
  have hrequest : (requests (run onlyPods ["PO", "Nginx", "-n", "web"]).events).map
      (fun q => (q.resource, q.name, q.space, q.timeout.isNone)) =
        [(pods, "nginx", some (.word "web"), true)] := by decide +kernel
  obtain ⟨q, hq, hshape⟩ := List.map_eq_singleton_iff.1 hrequest
  simp only [Prod.mk.injEq, Option.isNone_iff_eq_none] at hshape
  refine ⟨⟨q, hq, hshape⟩, ?_, ?_, by decide +kernel, ?_⟩
  · cases hrefusal : (run onlyPods ["po", "nginx", "-e", "]"]).refusal with
    | none => exact absurd hrefusal (by decide +kernel)
    | some refusal =>
      have hearly : (run onlyPods ["po", "nginx", "-e", "]"]).refusal.any Refusal.isEarly = true :=
        by decide +kernel
      rw [hrefusal] at hearly
      exact (run_sends_at_most_one_request _ _).2.2.1 refusal hrefusal hearly
  · have hname : (CommandLine.read ["-f", "nginx.yaml"]).toOption.bind (fun reading =>
        (reading.word? .file).bind Argument.nonempty?) = some "nginx.yaml" := by decide +kernel
    cases hread : CommandLine.read ["-f", "nginx.yaml"] with
    | error halt =>
      rw [hread] at hname
      cases hname
    | ok reading =>
      rw [hread] at hname
      exact (run_sends_at_most_one_request _ _).2.2.2.1 reading "nginx.yaml" hread hname
  · have hrefused : (run onlyPods ["svc", "nginx"]).refusal.any Refusal.isBeforeRequest = true := by
      decide +kernel
    obtain ⟨cause, hrefusal, hbefore⟩ := exists_cause_of_any hrefused
    exact (run_sends_at_most_one_request _ _).2.2.2.2.1 cause hrefusal hbefore

end Treeline
