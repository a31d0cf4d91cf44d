import LogScript.Completion.Item

/-!
The completion table of OML.
-/

namespace LogScript.Completion

def omlRows : List Row := [
  ⟨"read", none, "read($\x7bfield\x7d)",
    "read(src_ip)",
    "Read a field, keeping the source.",
    "读取字段，保留原值。"⟩,
  ⟨"take", none, "take($\x7bfield\x7d)",
    "take(user)",
    "Take a field and remove it from the source.",
    "取出字段并从源中移除。"⟩,
  ⟨"option", none, "option([$\x7bfields\x7d])",
    "option([ip, src_ip])",
    "First present field of the list.",
    "按顺序取第一个存在的字段。"⟩,
  ⟨"match", some "keyword", "match read($\x7bfield\x7d) \x7b\n  $\x7bpattern\x7d => $\x7bvalue\x7d ;\n  _ => $\x7bfallback\x7d ;\n\x7d",
    "match read(level) \x7b error => high ; _ => low ; \x7d",
    "Branch on a value.",
    "按值匹配分支。"⟩,
  ⟨"object", some "keyword", "object \x7b\n  $\x7bfield\x7d : $\x7btype\x7d = read($\x7bsource\x7d) ;\n\x7d",
    "object \x7b ip : ip = read(src_ip) ; \x7d",
    "Build an object.",
    "构造对象。"⟩,
  ⟨"collect", some "keyword", "collect read(keys : [$\x7bfields\x7d])",
    "collect read(keys : [sport, dport])",
    "Collect several fields into an array.",
    "收集多个字段为数组。"⟩,
  ⟨"pipe", some "keyword", "pipe read($\x7bfield\x7d) | $\x7bfunc\x7d",
    "pipe read(data) | base64_decode",
    "Apply pipe functions to a value.",
    "对值依次应用管道函数。"⟩,
  ⟨"fmt", some "keyword", "fmt(\"$\x7bformat\x7d\", @$\x7bvar\x7d)",
    "fmt(\"\x7b\x7d:\x7b\x7d\", @ip, @port)",
    "Format a string.",
    "格式化字符串。"⟩,
  ⟨"select", some "keyword", "select $\x7bcolumn\x7d from $\x7btable\x7d where $\x7bkey\x7d = $\x7bvalue\x7d ;",
    "select name from geo where ip = src_ip ;",
    "Look up an external table.",
    "查询外部数据表。"⟩,
  ⟨"get", none, "get($\x7bkey\x7d)",
    "get(name)",
    "Get an object member.",
    "取对象成员。"⟩,
  ⟨"nth", none, "nth($\x7bindex\x7d)",
    "nth(0)",
    "Take the Nth array element.",
    "取数组第 N 个元素。"⟩,
  ⟨"path", none, "path($\x7bpart\x7d)",
    "path(name)",
    "Extract a part of a path.",
    "提取路径的组成部分。"⟩,
  ⟨"url", none, "url($\x7bpart\x7d)",
    "url(domain)",
    "Extract a part of a URL.",
    "提取 URL 的组成部分。"⟩,
  ⟨"Time::to_ts_zone", none, "Time::to_ts_zone($\x7bzone\x7d, $\x7bunit\x7d)",
    "Time::to_ts_zone(8, ms)",
    "Convert to a timestamp in a time zone.",
    "按时区转换为时间戳。"⟩,
  ⟨"chars", none, "chars($\x7bvalue\x7d)",
    "chars(hello)",
    "String constant.",
    "字符串常量。"⟩,
  ⟨"digit", none, "digit($\x7bvalue\x7d)",
    "digit(100)",
    "Integer constant.",
    "整数常量。"⟩,
  ⟨"Now::time", none, "Now::time()",
    "Now::time()",
    "Current time.",
    "当前时间。"⟩,
  ⟨"Now::date", none, "Now::date()",
    "Now::date()",
    "Current date.",
    "当前日期。"⟩,
  ⟨"Now::hour", none, "Now::hour()",
    "Now::hour()",
    "Current hour.",
    "当前小时。"⟩,
  ⟨"Time::to_ts", none, "Time::to_ts",
    "pipe read(time) | Time::to_ts",
    "Convert to a timestamp in seconds.",
    "转换为秒级时间戳。"⟩,
  ⟨"Time::to_ts_ms", none, "Time::to_ts_ms",
    "pipe read(time) | Time::to_ts_ms",
    "Convert to a timestamp in milliseconds.",
    "转换为毫秒时间戳。"⟩,
  ⟨"Time::to_ts_us", none, "Time::to_ts_us",
    "pipe read(time) | Time::to_ts_us",
    "Convert to a timestamp in microseconds.",
    "转换为微秒时间戳。"⟩,
  ⟨"skip_empty", none, "skip_empty",
    "pipe read(tags) | skip_empty",
    "Skip empty values.",
    "跳过空值。"⟩,
  ⟨"base64_decode", none, "base64_decode",
    "pipe read(data) | base64_decode",
    "Base64 decode.",
    "Base64 解码。"⟩,
  ⟨"base64_encode", none, "base64_encode",
    "pipe read(data) | base64_encode",
    "Base64 encode.",
    "Base64 编码。"⟩,
  ⟨"html_escape", none, "html_escape",
    "pipe read(body) | html_escape",
    "HTML escape.",
    "HTML 转义。"⟩,
  ⟨"html_unescape", none, "html_unescape",
    "pipe read(body) | html_unescape",
    "HTML unescape.",
    "HTML 反转义。"⟩,
  ⟨"json_escape", none, "json_escape",
    "pipe read(body) | json_escape",
    "JSON escape.",
    "JSON 转义。"⟩,
  ⟨"json_unescape", none, "json_unescape",
    "pipe read(body) | json_unescape",
    "JSON unescape.",
    "JSON 反转义。"⟩,
  ⟨"str_escape", none, "str_escape",
    "pipe read(msg) | str_escape",
    "String escape.",
    "字符串转义。"⟩,
  ⟨"to_str", none, "to_str",
    "pipe read(code) | to_str",
    "Convert to a string.",
    "转换为字符串。"⟩,
  ⟨"to_json", none, "to_json",
    "pipe read(obj) | to_json",
    "Serialize to JSON.",
    "序列化为 JSON。"⟩,
  ⟨"ip4_to_int", none, "ip4_to_int",
    "pipe read(src_ip) | ip4_to_int",
    "IPv4 to integer.",
    "IPv4 转整数。"⟩]

end LogScript.Completion
