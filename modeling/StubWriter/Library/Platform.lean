import StubWriter.CompilationUnit

/-!
# Types of the platform

The types of the platform that stubs often extend, reduced to what a stub has to know, and the names
of the types in packages that are often imported on demand. Neither needs sources to be present.
-/

namespace StubWriter.Platform

/-! ## Units -/

def use (name : String) : TypeUse :=
  .named [name] 0

def basic (name : String) : TypeUse :=
  .basic name 0

def plain (type : TypeUse) : Param :=
  ⟨type, false⟩

/-- A method with the given modifiers; `hasBody` unless it is abstract. -/
def method (name : String) (mods : List String) (returns : Option TypeUse) (params : List TypeUse)
    (throws : List String) (hasBody : Bool) : MethodDecl :=
  ⟨name, mods, [], returns, params.map plain, throws.map ([·]), hasBody⟩

def abstractMethod (name : String) (returns : Option TypeUse) (params : List TypeUse) :
    MethodDecl :=
  method name [] returns params [] false

def defaultMethod (name : String) (returns : Option TypeUse) (params : List TypeUse) :
    MethodDecl :=
  method name ["default"] returns params [] true

def interfaceDecl (name : String) (typeParams : List String) (extended : List TypeUse)
    (methods : List MethodDecl) : TypeDecl :=
  ⟨.interfaceDecl, name, ["public"], typeParams.map (⟨·, []⟩), extended, [], methods, [], []⟩

def unit (package : List String) (imports : List Import) (decl : TypeDecl) : CompilationUnit :=
  ⟨package, imports, [decl]⟩

def enumClass : TypeDecl where
  kind := .classDecl
  name := "Enum"
  modifiers := ["public", "abstract"]
  typeParams := [⟨"E", [["Enum"]]⟩]
  extended := []
  implemented := [use "Comparable", .named ["java", "io", "Serializable"] 0]
  methods :=
    [method "name" ["public", "final"] (some (use "String")) [] [] true,
      method "ordinal" ["public", "final"] (some (basic "int")) [] [] true,
      method "compareTo" ["public", "final"] (some (basic "int")) [use "E"] [] true]
  constructors := [⟨["protected"], [], [plain (use "String"), plain (basic "int")], []⟩]
  nested := []

/-- The units of the platform by the name of the type that each declares. -/
def units : List (String × CompilationUnit) :=
  [("java.lang.Runnable", unit ["java", "lang"] [] <|
      interfaceDecl "Runnable" [] [] [abstractMethod "run" none []]),
    ("java.lang.AutoCloseable", unit ["java", "lang"] [] <|
      interfaceDecl "AutoCloseable" [] [] [method "close" [] none [] ["Exception"] false]),
    ("java.io.Closeable", unit ["java", "io"] [] <|
      interfaceDecl "Closeable" [] [use "AutoCloseable"]
        [method "close" [] none [] ["IOException"] false]),
    ("java.lang.Comparable", unit ["java", "lang"] [] <|
      interfaceDecl "Comparable" ["T"] []
        [abstractMethod "compareTo" (some (basic "int")) [use "T"]]),
    ("java.lang.Iterable", unit ["java", "lang"] [⟨["java", "util", "Iterator"], false, false⟩] <|
      interfaceDecl "Iterable" ["T"] []
        [abstractMethod "iterator" (some (use "Iterator")) [],
          defaultMethod "forEach" none [.named ["java", "util", "function", "Consumer"] 0],
          defaultMethod "spliterator" (some (.named ["java", "util", "Spliterator"] 0)) []]),
    ("java.lang.CharSequence", unit ["java", "lang"] [] <|
      interfaceDecl "CharSequence" [] []
        [abstractMethod "length" (some (basic "int")) [],
          abstractMethod "charAt" (some (basic "char")) [basic "int"],
          abstractMethod "subSequence" (some (use "CharSequence")) [basic "int", basic "int"],
          method "toString" ["public"] (some (use "String")) [] [] false]),
    ("java.util.Iterator", unit ["java", "util"] [] <|
      interfaceDecl "Iterator" ["E"] []
        [abstractMethod "hasNext" (some (basic "boolean")) [],
          abstractMethod "next" (some (use "E")) [],
          defaultMethod "remove" none []]),
    ("java.util.Comparator", unit ["java", "util"] [] <|
      interfaceDecl "Comparator" ["T"] []
        [abstractMethod "compare" (some (basic "int")) [use "T", use "T"],
          abstractMethod "equals" (some (basic "boolean")) [use "Object"],
          defaultMethod "reversed" (some (use "Comparator")) []]),
    ("java.util.concurrent.Callable", unit ["java", "util", "concurrent"] [] <|
      interfaceDecl "Callable" ["V"] []
        [method "call" [] (some (use "V")) [] ["Exception"] false]),
    ("java.util.function.Supplier", unit ["java", "util", "function"] [] <|
      interfaceDecl "Supplier" ["T"] [] [abstractMethod "get" (some (use "T")) []]),
    ("java.io.Serializable", unit ["java", "io"] [] <| interfaceDecl "Serializable" [] [] []),
    ("java.lang.Cloneable", unit ["java", "lang"] [] <| interfaceDecl "Cloneable" [] [] []),
    ("java.lang.Enum", unit ["java", "lang"] [] enumClass)]

/-- The unit that declares a type of the platform. -/
def unit? (name : String) : Option CompilationUnit :=
  units.lookup name

/-! ## Names -/

/-- Packages whose public types are all listed. -/
def packages : List (String × List String) :=
  [("java.io",
      ["BufferedInputStream", "BufferedOutputStream", "BufferedReader", "BufferedWriter",
        "ByteArrayInputStream", "ByteArrayOutputStream", "Closeable", "DataInput",
        "DataInputStream", "DataOutput", "DataOutputStream", "EOFException", "Externalizable",
        "File", "FileFilter", "FileInputStream", "FileNotFoundException", "FileOutputStream",
        "FileReader", "FileWriter", "FilenameFilter", "Flushable", "IOException",
        "InputStream", "InputStreamReader", "ObjectInput", "ObjectInputStream", "ObjectOutput",
        "ObjectOutputStream", "OutputStream", "OutputStreamWriter", "PrintStream",
        "PrintWriter", "Reader", "Serializable", "StringReader", "StringWriter",
        "UncheckedIOException", "UnsupportedEncodingException", "Writer"]),
    ("java.util",
      ["AbstractCollection", "AbstractList", "AbstractMap", "AbstractQueue",
        "AbstractSequentialList", "AbstractSet", "ArrayDeque", "ArrayList", "Arrays",
        "BitSet", "Calendar", "Collection", "Collections", "Comparator",
        "ConcurrentModificationException", "Date", "Deque", "Dictionary", "EnumMap",
        "EnumSet", "Enumeration", "EventListener", "EventObject", "HashMap", "HashSet",
        "Hashtable", "IdentityHashMap", "Iterator", "LinkedHashMap", "LinkedHashSet",
        "LinkedList", "List", "ListIterator", "Locale", "Map", "NavigableMap",
        "NavigableSet", "NoSuchElementException", "Objects", "Optional", "OptionalDouble",
        "OptionalInt", "OptionalLong", "PriorityQueue", "Properties", "Queue", "Random",
        "RandomAccess", "Scanner", "Set", "SortedMap", "SortedSet", "Spliterator", "Stack",
        "StringJoiner", "TimeZone", "Timer", "TimerTask", "TreeMap", "TreeSet", "UUID",
        "Vector", "WeakHashMap"]),
    ("java.util.function",
      ["BiConsumer", "BiFunction", "BiPredicate", "BinaryOperator", "BooleanSupplier",
        "Consumer", "DoubleBinaryOperator", "DoubleConsumer", "DoubleFunction",
        "DoublePredicate", "DoubleSupplier", "DoubleUnaryOperator", "Function",
        "IntBinaryOperator", "IntConsumer", "IntFunction", "IntPredicate", "IntSupplier",
        "IntUnaryOperator", "LongBinaryOperator", "LongConsumer", "LongFunction",
        "LongPredicate", "LongSupplier", "LongUnaryOperator", "ObjDoubleConsumer",
        "ObjIntConsumer", "ObjLongConsumer", "Predicate", "Supplier", "ToDoubleFunction",
        "ToIntFunction", "ToLongFunction", "UnaryOperator"]),
    ("java.util.concurrent",
      ["BlockingQueue", "Callable", "CompletableFuture", "CompletionStage",
        "ConcurrentHashMap", "ConcurrentMap", "CountDownLatch", "ExecutionException",
        "Executor", "ExecutorService", "Executors", "Future", "ScheduledExecutorService",
        "ThreadFactory", "TimeUnit", "TimeoutException"])]

def isListed (package : String) : Bool :=
  (packages.lookup package).isSome

/-- Whether a package is listed with the simple name of a type. -/
def lists (package simple : String) : Bool :=
  ((packages.lookup package).getD []).contains simple

/-- Simple names that every unit imports. -/
def langNames : List String :=
  ["AutoCloseable", "Boolean", "Byte", "CharSequence", "Character", "Class",
    "ClassCastException", "ClassNotFoundException", "Cloneable", "Comparable",
    "Deprecated", "Double", "Enum", "Error", "Exception", "Float",
    "IllegalArgumentException", "IllegalStateException", "IndexOutOfBoundsException",
    "Integer", "InterruptedException", "Iterable", "Long", "Math", "Number",
    "NullPointerException", "Object", "Override", "Process", "Runnable",
    "RuntimeException", "SafeVarargs", "Short", "String", "StringBuffer",
    "StringBuilder", "SuppressWarnings", "System", "Thread", "Throwable",
    "UnsupportedOperationException", "Void"]

end StubWriter.Platform
