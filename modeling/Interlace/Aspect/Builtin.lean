import Interlace.Aspect.Basic

/-!
# Built-in aspects

The aspects that come with the weaver. They run before all others.
-/

namespace Interlace

/-- The package that added code calls. -/
def toolPath : Text := "github.com/weaver-go/tool"

/-- The name that added code calls the package by. -/
def toolAlias : Text := "tool"

/-- The package that stands in for the database package. -/
def sqlTracePath : Text := "github.com/weaver-go/tool/sqltrace"

/-- The name that added code calls that package by. -/
def sqlTraceAlias : Text := "sqltrace"

/-- The directive that asks for a span. -/
def spanDirective : Text := "tool:span"

/-- The setting that says whether handlers are wrapped or report from inside. -/
def httpMode : Text := "httpmode"

/-- The settings when none are given. -/
def Settings.standard : Settings :=
  Dict.ofList [(httpMode, "wrap")]

/-- The packages of the instrumentation itself start with these paths. -/
def internalPackages : List Text := [toolPath]

namespace Builtin

/-- Code that refers to the tool package. -/
def toolTemplate (text : Text) : Template :=
  ⟨text, Dict.ofList [(toolAlias, toolPath)], none⟩

/-- A setting has a value. -/
def whenMode (mode : Text) : JoinPoint :=
  .configuration (Dict.ofList [(httpMode, mode)])

/-- Wraps the handler that is given to a function. -/
def handle (id function wrapper : Text) : Aspect :=
  ⟨id, false, .allOf [whenMode "wrap", .functionCall "net/http" function],
    [.wrapCallArgument 1 (toolTemplate (wrapper ++ "(\x7b\x7b.\x7d\x7d)"))]⟩

/-- Wraps the handler of a server. -/
def serverHandler : Aspect :=
  ⟨"http-server-handler-wrap", false,
    .allOf [whenMode "wrap", .oneOf [
      .structLiteralField (.pointerTo "net/http" "Server") "Handler",
      .structLiteralField (.named "net/http" "Server") "Handler"]],
    [.wrapExpression (toolTemplate "tool.WrapHandler(\x7b\x7b.\x7d\x7d)")]⟩

/-- Reports from inside handlers. -/
def handlerReport : Aspect :=
  let signature : Signature :=
    ⟨[.named "net/http" "ResponseWriter", .pointerTo "net/http" "Request"], []⟩
  ⟨"http-handler-report", false,
    .allOf [whenMode "report",
      .functionDeclaration { FunctionMatcher.any with signature := some signature }],
    [.reportSpan .empty]⟩

/-- Reports where a directive asks for it. -/
def spans : Aspect :=
  ⟨"span-directive", false,
    .allOf [.directive spanDirective, .functionDeclaration .any], [.reportSpan .empty]⟩

/-- Sets the tool package up at the start of the program. -/
def mainInit : Aspect :=
  ⟨"main-init", false,
    .allOf [.packageName "main",
      .functionDeclaration ⟨some ("main" : Text), none, some ⟨[], []⟩, none⟩],
    [.prependStatements (toolTemplate "defer tool.Init()()")]⟩

/-- Opens databases through the package that traces them. -/
def databases : Aspect :=
  ⟨"database-sql-open", false,
    .oneOf [.functionCall "database/sql" "Open", .functionCall "database/sql" "OpenDB"],
    [.replaceCallTarget "database/sql" sqlTracePath sqlTraceAlias]⟩

end Builtin

/-- The aspects that come with the weaver, in order. -/
def builtinAspects : List Aspect :=
  [Builtin.handle "http-handle-wrap" "Handle" "tool.WrapHandler",
    Builtin.handle "http-handlefunc-wrap" "HandleFunc" "tool.WrapHandlerFunc",
    Builtin.serverHandler, Builtin.handlerReport, Builtin.spans, Builtin.mainInit,
    Builtin.databases]

end Interlace
