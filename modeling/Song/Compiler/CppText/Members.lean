import Song.Compiler.CppText.Types

/-!
# The text of services and classes (`codegen.cpp`)

The proxies, interfaces and dispatchers of services, the proxies, skeletons, dispatchers and
factories of classes. A scope is marked where it binds something: a class with its members, a
function, the body of a `case`, a lambda.
-/

namespace Song.Compiler.CppText

open Piece (var own)

/-! ## Parameters -/

/-- `type_to_param`. -/
def typeToParam (type : Ty) (name : Piece Mark) : Code :=
  [raw (if byRef type then lit "const " ++ typeToCpp type ++ lit "& "
    else typeToCpp type ++ lit " "), name]

def generateMethodParams (params : List Param) : Code :=
  separated (t ", ") (paramPieces params typeToParam)

/-- Each parameter put into `buf`. -/
def encodeParams (indent : String) (buf : String) (params : List Param) : List Line :=
  params.zipIdx.map fun x =>
    line ([t indent] ++ encode x.1.type [.use (some x.2) x.1.name] (var buf) ++ [t ";"])

/-- Each parameter taken from `buf`, as a variable of a `case`. -/
def decodeParams (buf : String) (params : List Param) : List Line :=
  params.zipIdx.map fun x =>
    line ([t "            ", raw (typeToCpp x.1.type), t " ", .bind (some x.2) x.1.name, t " = "] ++
      decode x.1.type (var buf) ++ [t ";"])

/-- The comma behind the parameters, if there are any. -/
def comma (params : List Param) : Code := if params.isEmpty then [] else [t ", "]

/-- A name of the tree, or made of one, that the generator uses as a variable. -/
def named (name : Str) : Piece Mark := .use none name

/-! ## Services -/

section
variable (s : ServiceDef)

def streamMethod (m : Method) : List Line :=
  [documented m.doc "    " ([t "    void ", raw m.name, t "(", .enter] ++
      generateMethodParams m.params ++ comma m.params ++
      [t "const std::function<void(", raw (typeToCpp m.returnType), t "&)>& ", own "on_chunk",
        t ", int ", own "chunk_timeout_ms", t " = 30000) \x7b"]),
    line [t "        Buffer ", own "req", t ";"]] ++
  encodeParams "        " "req" m.params ++
  [line [t "        ", var "m_conn", t ".call_streaming(", named (Cpp.kServiceStream s.name), t ", ",
      named (Cpp.kMethod s.name m.name), t ", ", var "req", t ","],
    line [t "            [&", var "on_chunk", t "](", .enter, t "Buffer& ", own "song_chunk", t ") \x7b"],
    line ([t "                ", raw (typeToCpp m.returnType), t " ", own "value", t " = "] ++
      decode m.returnType (var "song_chunk") ++ [t ";"]),
    line [t "                ", var "on_chunk", t "(", var "value", t ");"],
    line [t "            \x7d", .leave, t ","],
    line [t "            ", var "chunk_timeout_ms", t ");"],
    line [t "    \x7d", .leave],
    blank]

def unaryMethod (m : Method) : List Line :=
  [documented m.doc "    " ([t "    ", raw (typeToCpp m.returnType), t " ", raw m.name, t "(",
      .enter] ++ generateMethodParams m.params ++ [t ") \x7b"]),
    line [t "        Buffer ", own "req", t ";"]] ++
  encodeParams "        " "req" m.params ++
  [line [t "        Buffer ", own "resp", t " = ", var "m_conn", t ".call(",
      named (Cpp.kService s.name), t ", ", named (Cpp.kMethod s.name m.name), t ", ", var "req",
      t ");"]] ++
  (if m.isVoid then [] else
    [line ([t "        return "] ++ decode m.returnType (var "resp") ++ [t ";"])]) ++
  [line [t "    \x7d", .leave], blank]

def generateServiceProxy : List Line :=
  [documented s.doc "" [t "class ", raw s.name, t "Proxy \x7b", .enter],
    line [t "    ServiceConnection& ", own "m_conn", t ";"],
    line [t "public:"],
    line [t "    explicit ", raw s.name,
      t "Proxy(ServiceConnection& conn) : m_conn(conn) \x7b\x7d"],
    blank] ++
  s.methods.flatMap (fun m => if m.isStream then streamMethod s m else unaryMethod s m) ++
  [line [t "\x7d;", .leave]]

def interfaceMethod (m : Method) : Line :=
  if m.isStream then
    documented m.doc "    " ([t "    virtual void ", raw m.name, t "(", .enter] ++
      generateMethodParams m.params ++ comma m.params ++
      [t "StreamWriter& ", own "writer", t ") = 0;", .leave])
  else
    documented m.doc "    " ([t "    virtual ", raw (typeToCpp m.returnType), t " ", raw m.name,
      t "(", .enter] ++ generateMethodParams m.params ++ [t ") = 0;", .leave])

def generateServiceInterface : List Line :=
  [documented s.doc "" [t "class I", raw s.name, t " \x7b"] " (interface)",
    line [t "public:"],
    line [t "    virtual ~I", raw s.name, t "() = default;"],
    blank] ++
  s.methods.map interfaceMethod ++
  [line [t "\x7d;"]]

/-- What is called, with a variable for the result where there is one. -/
def callWithResult (m : Method) (callee : Code) : Line :=
  line ([t "            "] ++ (if m.isVoid then [] else [t "auto ", own "result", t " = "]) ++ callee ++
    [t "("] ++ separated (t ", ") (argPieces m.params) ++ [t ");"])

/-- The result put into `buf`, if there is one. -/
def encodeResult (m : Method) (buf : String) : List Line :=
  if m.isVoid then []
  else [line ([t "            "] ++ encode m.returnType [var "result"] (var buf) ++ [t ";"])]

def caseEnd : List Line := [line [t "            break;"], line [t "        \x7d", .leave]]

def dispatchCase (m : Method) : List Line :=
  [line [t "        case ", named (Cpp.kMethod s.name m.name), t ": \x7b", .enter]] ++
  decodeParams "request" m.params ++
  [callWithResult m [var "impl", t ".", raw m.name]] ++ encodeResult m "response" ++ caseEnd

def streamCase (m : Method) : List Line :=
  [line [t "        case ", named (Cpp.kMethod s.name m.name), t ": \x7b", .enter]] ++
  decodeParams "request" m.params ++
  [line ([t "            ", var "impl", t ".", raw m.name, t "("] ++
    (argPieces m.params).flatMap (· ++ [t ", "]) ++ [var "writer", t ");"])] ++ caseEnd

def dispatchDefault (message : String) : List Line :=
  [line [t "        default:"],
    line [t "            throw std::runtime_error(\"", t message, t ": \" + std::to_string(",
      var "method_id", t "));"],
    line [t "    \x7d"],
    line [t "\x7d", .leave]]

def generateServiceDispatcher : List Line :=
  [line [t "inline void dispatch_", raw s.name, t "(", .enter, t "I", raw s.name, t "& ", own "impl",
      t ", u16 ", own "method_id", t ", Buffer& ", own "request", t ", Buffer& ", own "response",
      t ") \x7b"],
    line [t "    switch (", var "method_id", t ") \x7b"]] ++
  (s.methods.filter fun m => !m.isStream).flatMap (dispatchCase s) ++
  dispatchDefault "Unknown method ID" ++
  if s.hasStream then
    [blank,
      line [t "inline void dispatch_", raw s.name, t "_stream(", .enter, t "I", raw s.name, t "& ",
        own "impl", t ", u16 ", own "method_id", t ", Buffer& ", own "request", t ", StreamWriter& ",
        own "writer", t ") \x7b"],
      line [t "    switch (", var "method_id", t ") \x7b"]] ++
    (s.methods.filter fun m => m.isStream).flatMap (streamCase s) ++
    dispatchDefault "Unknown streaming method ID"
  else []

end

/-! ## Classes -/

section
variable (c : ClassDef)

/-- What every proxy has: its members, moving, `release`, the accessors. -/
def proxyBasics : List Line :=
  [line [t "    ServiceConnection& ", own "m_conn", t ";"],
    line [t "    u32 ", own "m_type_id", t ";"],
    line [t "    i32 ", own "m_object_id", t ";"],
    blank,
    line [t "public:"],
    line [t "    ", raw c.name, t "Proxy(ServiceConnection& conn, u32 type_id, i32 object_id)"],
    line [t "        : m_conn(conn), m_type_id(type_id), m_object_id(object_id) \x7b\x7d"],
    blank,
    line [t "    ", raw c.name, t "Proxy(", raw c.name, t "Proxy&& other) noexcept"],
    line [t "        : m_conn(other.m_conn), m_type_id(other.m_type_id), m_object_id(other.m_object_id) \x7b"],
    line [t "        other.m_object_id = 0;  // Prevent double-release"],
    line [t "    \x7d"],
    blank,
    line [t "    ", raw c.name, t "Proxy& operator=(", raw c.name, t "Proxy&& other) noexcept \x7b"],
    line [t "        if (this != &other) \x7b"],
    line [t "            release();"],
    line [t "            m_type_id = other.m_type_id;"],
    line [t "            m_object_id = other.m_object_id;"],
    line [t "            other.m_object_id = 0;"],
    line [t "        \x7d"],
    line [t "        return *this;"],
    line [t "    \x7d"],
    blank,
    line [t "    ", raw c.name, t "Proxy(const ", raw c.name, t "Proxy&) = delete;"],
    line [t "    ", raw c.name, t "Proxy& operator=(const ", raw c.name, t "Proxy&) = delete;"],
    blank,
    line [t "    ~", raw c.name, t "Proxy() \x7b release(); \x7d"],
    blank,
    line [t "    void release() \x7b"],
    line [t "        if (m_object_id != 0) \x7b"],
    line [t "            m_conn.release_object(m_type_id, m_object_id);"],
    line [t "            m_object_id = 0;"],
    line [t "        \x7d"],
    line [t "    \x7d"],
    blank,
    line [t "    bool is_null() const \x7b return m_object_id == 0; \x7d"],
    line [t "    explicit operator bool() const \x7b return !is_null(); \x7d"],
    blank,
    line [t "    u32 type_id() const \x7b return m_type_id; \x7d"],
    line [t "    i32 object_id() const \x7b return m_object_id; \x7d"],
    blank]

def proxyProperty (p : Property) : List Line :=
  [documented p.doc "    " [t "    ", raw (typeToCpp p.type), t " ", raw p.name, t "() const \x7b"],
    line [t "        Buffer resp = m_conn.get_property(m_type_id, m_object_id, ",
      raw (Cpp.kProp c.name p.name), t ");"],
    line ([t "        return "] ++ decode p.type (t "resp") ++ [t ";"]),
    line [t "    \x7d"]] ++
  (if p.readonly then [] else
    [line ([t "    void set_", raw p.name, t "("] ++ typeToParam p.type (t "value") ++ [t ") \x7b"]),
      line [t "        Buffer val;"],
      line ([t "        "] ++ encode p.type [t "value"] (t "val") ++ [t ";"]),
      line [t "        m_conn.set_property(m_type_id, m_object_id, ", raw (Cpp.kProp c.name p.name),
        t ", val);"],
      line [t "    \x7d"]]) ++
  [blank]

def proxyMethod (m : Method) : List Line :=
  [documented m.doc "    " ([t "    ", raw (typeToCpp m.returnType), t " ", raw m.name, t "(",
      .enter] ++ generateMethodParams m.params ++ [t ") \x7b"]),
    line [t "        Buffer ", own "args", t ";"]] ++
  encodeParams "        " "args" m.params ++
  [line [t "        Buffer ", own "resp", t " = ", var "m_conn", t ".call_object(", var "m_type_id",
      t ", ", var "m_object_id", t ", ", named (Cpp.kMethod c.name m.name), t ", ", var "args",
      t ");"]] ++
  (if m.isVoid then [] else
    [line ([t "        return "] ++ decode m.returnType (var "resp") ++ [t ";"])]) ++
  [line [t "    \x7d", .leave], blank]

/-- The function that creates an object by the `i`th constructor. -/
def createFunction (ctor : Constructor) (i : Nat) : List Line :=
  [blank,
    line [t "/// Create a new ", raw c.name, t " object"],
    line ([t "inline ", raw c.name, t "Proxy create_", raw c.name, t "(", .enter,
      t "ServiceConnection& ", own "conn"] ++
      (paramPieces ctor.params typeToParam).flatMap ([t ", "] ++ ·) ++ [t ") \x7b"]),
    line [t "    Buffer ", own "args", t ";"]] ++
  encodeParams "    " "args" ctor.params ++
  [line [t "    auto ", own "ref", t " = ", var "conn", t ".create_object(", named (Cpp.kType c.name),
      t ", ", raw (toStr i), t ", ", var "args", t ");"],
    line [t "    return ", raw c.name, t "Proxy(", var "conn", t ", ", var "ref", t ".type_id, ",
      var "ref", t ".object_id);"],
    line [t "\x7d", .leave]]

def generateClassProxy : List Line :=
  [documented c.doc "" [t "class ", raw c.name, t "Proxy \x7b", .enter]] ++ proxyBasics c ++
  c.properties.flatMap (proxyProperty c) ++ c.methods.flatMap (proxyMethod c) ++
  [line [t "\x7d;", .leave]] ++ c.constructors.zipIdx.flatMap fun x => createFunction c x.1 x.2

/-- `std::toupper`. -/
def upper (s : Str) : Str := s.map fun b => if 97 ≤ b ∧ b ≤ 122 then b - 32 else b

def skeletonProperty (p : Property) : List Line :=
  [documented p.doc "    " [t "    virtual ", raw (typeToCpp p.type), t " get_", raw p.name,
      t "() const \x7b return ", raw p.name, t "_; \x7d"]] ++
  (if p.readonly then [] else
    [line ([t "    virtual void set_", raw p.name, t "("] ++ typeToParam p.type (t "value") ++
        [t ") \x7b"]),
      line [t "        ", raw p.name, t "_ = value;"],
      line [t "        Buffer song_notify_buf;"],
      line ([t "        "] ++ encode p.type [t "value"] (t "song_notify_buf") ++ [t ";"]),
      line [t "        notify_property(", raw (Cpp.kProp c.name p.name), t ", song_notify_buf);"],
      line [t "    \x7d"]]) ++
  [blank]

def skeletonMethod (m : Method) : Line :=
  documented m.doc "    " ([t "    virtual ", raw (typeToCpp m.returnType), t " ", raw m.name, t "(",
    .enter] ++ generateMethodParams m.params ++ [t ") = 0;", .leave])

def baseClass : Str :=
  match c.base with
  | some base => base ++ lit "Base"
  | none => lit "song::Object"

def generateClassSkeleton : List Line :=
  [documented c.doc "" [t "class ", raw c.name, t "Base : public ", raw (baseClass c), t " \x7b"]
      " (server implementation base)",
    line [t "protected:"]] ++
  c.properties.map (fun p => line [t "    ", raw (typeToCpp p.type), t " ", raw p.name, t "_\x7b\x7d;"]) ++
  [blank,
    line [t "    // User extension point: define ", raw (upper c.name),
      t "_SERVER_PRIVATE before including"],
    line [t "    // to add private members/methods to this class"],
    line [t "#ifdef ", raw (upper c.name), t "_SERVER_PRIVATE"],
    line [t "    ", raw (upper c.name), t "_SERVER_PRIVATE"],
    line [t "#endif"],
    blank,
    line [t "public:"],
    line [t "    virtual ~", raw c.name, t "Base() = default;"],
    blank] ++
  c.properties.flatMap (skeletonProperty c) ++ c.methods.map skeletonMethod ++
  [blank,
    line [t "    // Object interface implementation (generated)"],
    line [t "    void prop_get(u16 prop_id, Buffer& resp) override;"],
    line [t "    void prop_set(u16 prop_id, Buffer& req, Buffer& resp) override;"],
    line [t "    void dispatch(u16 method_id, Buffer& req, Buffer& resp) override;"],
    line [t "\x7d;"]]

/-- What a dispatcher does with an id that is not of the class: the base class's part. -/
def orBase (base : Code) (message : String) (id : Piece Mark) : List Line :=
  line [t "        default:"] ::
    match c.base with
    | some name => [line ([t "            ", raw name, t "Base::"] ++ base ++ [t ";"]),
        line [t "            break;"]]
    | none => [line [t "            throw std::runtime_error(\"", t message,
        t ": \" + std::to_string(", id, t "));"]]

def propGetCase (p : Property) : List Line :=
  [line [t "        case ", raw (Cpp.kProp c.name p.name), t ": \x7b"],
    line ([t "            "] ++ encode p.type [t "get_", raw p.name, t "()"] (t "resp") ++ [t ";"]),
    line [t "            break;"],
    line [t "        \x7d"]]

def propSetCase (p : Property) : List Line :=
  if p.readonly then [] else
    [line [t "        case ", raw (Cpp.kProp c.name p.name), t ": \x7b"],
      line ([t "            auto value = "] ++ decode p.type (t "req") ++ [t ";"]),
      line [t "            set_", raw p.name, t "(value);"],
      line ([t "            "] ++ encode p.type [t "get_", raw p.name, t "()"] (t "resp") ++ [t ";"]),
      line [t "            break;"],
      line [t "        \x7d"]]

def classCase (m : Method) : List Line :=
  [line [t "        case ", named (Cpp.kMethod c.name m.name), t ": \x7b", .enter]] ++
  decodeParams "req" m.params ++
  [callWithResult m [named m.name]] ++ encodeResult m "resp" ++ caseEnd

def generateClassDispatcher : List Line :=
  [line [t "inline void ", raw c.name, t "Base::prop_get(u16 prop_id, Buffer& resp) \x7b"],
    line [t "    switch (prop_id) \x7b"]] ++
  c.properties.flatMap (propGetCase c) ++
  orBase c [t "prop_get(prop_id, resp)"] "Unknown property ID" (t "prop_id") ++
  [line [t "    \x7d"], line [t "\x7d"], blank,
    line [t "inline void ", raw c.name,
      t "Base::prop_set(u16 prop_id, Buffer& req, Buffer& resp) \x7b"],
    line [t "    switch (prop_id) \x7b"]] ++
  c.properties.flatMap (propSetCase c) ++
  orBase c [t "prop_set(prop_id, req, resp)"] "Unknown or readonly property ID" (t "prop_id") ++
  [line [t "    \x7d"], line [t "\x7d"], blank,
    line [t "inline void ", raw c.name, t "Base::dispatch(", .enter, t "u16 ", own "method_id",
      t ", Buffer& ", own "req", t ", Buffer& ", own "resp", t ") \x7b"],
    line [t "    switch (", var "method_id", t ") \x7b"]] ++
  c.methods.flatMap (classCase c) ++
  orBase c [t "dispatch(", var "method_id", t ", ", var "req", t ", ", var "resp", t ")"]
    "Unknown method ID" (var "method_id") ++
  [line [t "    \x7d"], line [t "\x7d", .leave]]

def factoryCase (ctor : Constructor) (i : Nat) : List Line :=
  [line [t "        case ", named (Cpp.kCtor c.name i), t ": \x7b", .enter]] ++
  (if ctor.params.isEmpty then [line [t "            (void)", var "args", t ";"]] else []) ++
  decodeParams "args" ctor.params ++
  [line ([t "            return new ", var "Impl", t "("] ++
      separated (t ", ") (argPieces ctor.params) ++ [t ");"]),
    line [t "        \x7d", .leave]]

def generateClassFactory : List Line :=
  [line [t "// Register a concrete ", raw c.name, t " implementation with a runtime."],
    line [t "// Impl must derive from ", raw c.name, t "Base and expose constructors"],
    line [t "// matching the IDL constructor list."],
    line [t "template <typename ", .enter, own "Impl", t ">"],
    line [t "inline void register_", raw c.name, t "(song::ServiceRuntime& ", own "runtime", t ") \x7b"],
    line [t "    ", var "runtime", t ".register_factory(", named (Cpp.kType c.name), t ", [](", .enter,
      t "u16 ", own "constructor_id", t ", Buffer& ", own "args", t ") -> song::Object* \x7b"]] ++
  (if c.constructors.isEmpty then
    [line [t "        (void)", var "args", t ";"],
      line [t "        if (", var "constructor_id", t " == 0) \x7b"],
      line [t "            return new ", var "Impl", t "();"],
      line [t "        \x7d"]]
  else
    [line [t "        switch (", var "constructor_id", t ") \x7b"]] ++
    c.constructors.zipIdx.flatMap (fun x => factoryCase c x.1 x.2) ++
    [line [t "        default: break;"], line [t "        \x7d"]]) ++
  [line [t "        throw std::runtime_error(\"Unknown constructor ID for ", raw c.name,
      t ": \" + std::to_string(", var "constructor_id", t "));"],
    line [t "    \x7d);", .leave],
    line [t "\x7d", .leave]]

end

end Song.Compiler.CppText
