/-
  The table of configuration fields (`src/config/sc_config_schema.c`, generated from
  `schema/fields.yaml`) and the look-up of a path in it.

  A field's path is a fixed text, or a pattern with `<name>` in it that stands for one non-empty part
  without a dot.  `configFieldLookup` prefers the fixed text and takes the first pattern otherwise.
-/
import Mathlib.Data.List.Basic
import SmolClaw.Core.Status

namespace SmolClaw.Config

/-- `sc_config_field_type` -/
inductive FieldType where
  | string
  | int
  | bool
  deriving DecidableEq, Repr

/-- `sc_config_field`, the documentation apart. -/
structure ConfigField where
  path : Bytes
  type : FieldType
  secret : Bool
  defaultValue : Bytes

/-- The bytes of a literal, as they stand in the string: the table is evaluated, and `str`, which goes
    through the characters, is slow there. -/
def literal (s : String) : Bytes := s.toByteArray.data.toList

/-- A row of the table, with the source's literals. -/
def field (path : String) (type : FieldType) (secret : Bool) (defaultValue : String) : ConfigField :=
  ⟨literal path, type, secret, literal defaultValue⟩

/-- `sc_config_fields` -/
def configFields : List ConfigField :=
  [ field "schema.version" .int false "1",
    field "runtime.autonomy_level" .string false "supervised",
    field "runtime.workspace_path" .string false "",
    field "logging.level" .string false "info",
    field "logging.format" .string false "console",
    field "logging.daemon.file_enabled" .bool false "true",
    field "logging.daemon.file_path" .string false "logs/smolclaw-daemon.log",
    field "autonomy.level" .string false "supervised",
    field "autonomy.shell_enabled" .bool false "false",
    field "provider.default" .string false "openai",
    field "provider.default_model" .string false "default",
    field "provider.api_key" .string true "",
    field "provider.api_key_env" .string false "SMOLCLAW_PROVIDER_API_KEY",
    field "providers.models.<name>.kind" .string false "openai",
    field "providers.models.<name>.model" .string false "",
    field "providers.models.<name>.api_key" .string true "",
    field "providers.models.<name>.credential_env" .string false "",
    field "providers.models.<name>.base_url" .string false "",
    field "providers.models.<name>.fallback_providers" .string false "[]",
    field "providers.models.<name>.default" .string false "",
    field "providers.models.<name>.tool_provider" .string false "",
    field "providers.models.<name>.routes" .string false "[]",
    field "providers.models.<name>.think" .bool false "true",
    field "providers.models.<name>.reasoning_effort" .string false "",
    field "providers.models.<name>.options" .string false "\x7b\x7d",
    field "providers.models.<name>.format" .string false "",
    field "providers.models.<name>.native_tool_streaming" .bool false "false",
    field "providers.models.<name>.deployment" .string false "",
    field "providers.models.<name>.api_version" .string false "",
    field "providers.models.<name>.region" .string false "",
    field "providers.models.<name>.secret_access_key" .string true "",
    field "providers.models.<name>.session_token" .string true "",
    field "providers.models.<name>.command" .string false "",
    field "providers.models.<name>.mcp_server" .string false "claude-code",
    field "providers.models.<name>.mcp_tool" .string false "query",
    field "providers.models.<name>.mcp_prompt_field" .string false "prompt",
    field "providers.models.<name>.allow_loopback" .bool false "false",
    field "model.route_default" .string false "provider.default_model",
    field "reliability.max_retries" .int false "2",
    field "reliability.retry_backoff_ms" .int false "250",
    field "reliability.timeout_ms" .int false "30000",
    field "memory.backend" .string false "none",
    field "gateway.bind" .string false "127.0.0.1",
    field "gateway.port" .int false "8080",
    field "gateway.enabled" .bool false "false",
    field "gateway.listener_enabled" .bool false "false",
    field "gateway.public_bind_enabled" .bool false "false",
    field "gateway.max_body_bytes" .int false "65536",
    field "gateway.rate_limit" .int false "60",
    field "gateway.timeout_ms" .int false "30000",
    field "gateway.auth_token" .string true "",
    field "gateway.pairing_code" .string true "",
    field "gateway.observe" .bool false "true",
    field "proxy.enabled" .bool false "false",
    field "proxy.default_url" .string false "",
    field "autonomy.auto_approve" .string false "[]",
    field "autonomy.always_ask" .string false "[]",
    field "autonomy.never_allow" .string false "[]",
    field "autonomy.workspace_only" .bool false "true",
    field "autonomy.forbidden_paths" .string false
      "[\"/etc\",\"/sys\",\"/boot\",\"~/.ssh\",\"~/.aws\"]",
    field "autonomy.allowed_commands" .string false "[]",
    field "autonomy.forbidden_commands" .string false "[\"shutdown\",\"reboot\",\"mkfs\"]",
    field "autonomy.shell_env_passthrough" .string false "[\"PATH\",\"HOME\",\"USER\",\"LANG\"]",
    field "security.otp.enabled" .bool false "false",
    field "security.otp.actions" .string false
      "[\"shell\",\"browser\",\"browser_screenshot\",\"file_write\"]",
    field "security.otp.code" .string true "",
    field "security.sandbox.backend" .string false "auto",
    field "security.sandbox.network" .string false "full",
    field "security.sandbox.container_runtime" .string false "",
    field "security.sandbox.docker_path" .string false "",
    field "security.sandbox.podman_path" .string false "",
    field "security.sandbox.image_name" .string false "alpine:3.23.4",
    field "security.sandbox.fallback_order" .string false
      "[\"landlock\",\"bubblewrap\",\"firejail\",\"docker\",\"podman\"]",
    field "security.sandbox.allow_noop_fallback" .bool false "false",
    field "security.sandbox.allowed_domains" .string false "[]",
    field "security.sandbox.memory_limit_mb" .int false "0",
    field "security.sandbox.max_subprocesses" .int false "0",
    field "security.sandbox.allow_devices" .string false "[]",
    field "agent.tool_receipts.enabled" .bool false "true",
    field "agent.tool_receipts.show_in_response" .bool false "false",
    field "agent.tool_receipts.inject_system_prompt" .bool false "true",
    field "agent.max_history_messages" .int false "50",
    field "agent.consecutive_message_limit" .int false "5",
    field "agent.max_tool_iterations" .int false "10",
    field "agent.max_tool_result_chars" .int false "50000",
    field "agent.max_system_prompt_chars" .int false "0",
    field "tools.http.max_body_bytes" .int false "50000",
    field "tools.rtk.enabled" .bool false "false",
    field "tools.rtk.command" .string false "rtk",
    field "tools.rtk.ultra_compact" .bool false "true",
    field "tools.rtk.fallback_passthrough" .bool false "true",
    field "tools.rtk.allowed_commands" .string false
      "[\"ls\",\"tree\",\"cat\",\"head\",\"tail\",\"rg\",\"grep\",\"find\",\"git\",\"gh\",\"pytest\",\"cargo\",\"go\",\"npm\",\"pnpm\",\"yarn\",\"docker\",\"kubectl\",\"curl\",\"wget\"]",
    field "media.asr.enabled" .bool false "false",
    field "media.asr.backend" .string false "whisper_cpp",
    field "media.asr.whisper.endpoint_url" .string false
      "http://127.0.0.1:2022/v1/audio/transcriptions",
    field "media.asr.whisper.model" .string false "whisper-1",
    field "media.asr.whisper.language" .string false "",
    field "media.asr.whisper.prompt" .string false "",
    field "media.asr.whisper.temperature" .string false "",
    field "media.asr.whisper.temperature_inc" .string false "",
    field "media.asr.whisper.response_format" .string false "json",
    field "media.asr.whisper.timeout_ms" .int false "30000",
    field "media.asr.whisper.max_audio_bytes" .int false "26214400",
    field "media.asr.whisper.max_response_bytes" .int false "65536",
    field "media.tts.enabled" .bool false "false",
    field "media.tts.backend" .string false "piper",
    field "media.tts.reply_mode" .string false "text_and_audio",
    field "media.tts.piper.base_url" .string false "http://127.0.0.1:5000",
    field "media.tts.piper.voice" .string false "",
    field "media.tts.piper.speaker" .string false "",
    field "media.tts.piper.speaker_id" .int false "-1",
    field "media.tts.piper.length_scale" .string false "",
    field "media.tts.piper.noise_scale" .string false "",
    field "media.tts.piper.noise_w_scale" .string false "",
    field "media.tts.piper.timeout_ms" .int false "30000",
    field "media.tts.piper.max_audio_bytes" .int false "8388608",
    field "tools.web_search.provider" .string false "none",
    field "tools.web_search.max_response_bytes" .int false "50000",
    field "tools.web_search.brave_api_key_env" .string false "BRAVE_SEARCH_API_KEY",
    field "tools.web_search.serper_api_key_env" .string false "SERPER_API_KEY",
    field "tools.web_search.google_api_key_env" .string false "GOOGLE_CSE_API_KEY",
    field "tools.web_search.google_cse_id_env" .string false "GOOGLE_CSE_ID",
    field "browser.enabled" .bool false "true",
    field "browser.allowed_domains" .string false "[\\\"*\\\"]",
    field "browser.lightpanda.cdp_url" .string false "ws://127.0.0.1:9222",
    field "browser.lightpanda.version_url" .string false "http://127.0.0.1:9222/json/version",
    field "browser.lightpanda.require_loopback" .bool false "true",
    field "browser.lightpanda.command_timeout_ms" .int false "5000",
    field "browser.lightpanda.navigation_timeout_ms" .int false "30000",
    field "browser.lightpanda.max_message_bytes" .int false "1048576",
    field "browser.screenshot.max_bytes" .int false "4194304",
    field "hardware.enabled" .bool false "false",
    field "sop.enabled" .bool false "false",
    field "sop.path" .string false "",
    field "cron.tools_enabled" .bool false "false",
    field "cron.enabled" .bool false "false",
    field "cron.id" .string false "config-cron",
    field "cron.schedule" .string false "",
    field "cron.prompt" .string false "",
    field "cron.delivery_target" .string false "default",
    field "cron.once" .bool false "false",
    field "tool_filter_groups" .string false "[]",
    field "mcp.deferred_loading" .bool false "true",
    field "heartbeat.enabled" .bool false "false",
    field "heartbeat.state_path" .string false "heartbeat.state",
    field "channels.session_persistence" .bool false "true",
    field "channels.session_backend" .string false "sqlite",
    field "channels.ack_reactions" .bool false "false",
    field "channels.show_tool_calls" .bool false "false",
    field "channels.max_seen_message_ids" .int false "1024",
    field "channels.<name>.tools_allow" .string false "[]",
    field "channels.<name>.tools_deny" .string false "[]",
    field "channels.<name>.autonomy_level" .string false "",
    field "channels.telegram.enabled" .bool false "false",
    field "channels.telegram.bot_token_env" .string false "SMOLCLAW_TELEGRAM_BOT_TOKEN",
    field "channels.telegram.bot_token" .string true "",
    field "channels.telegram.allowed_users" .string false "[]",
    field "channels.telegram.mention_only" .bool false "false",
    field "channels.telegram.interrupt_on_new_message" .bool false "false",
    field "channels.telegram.post_reactions" .bool false "false",
    field "channels.telegram.stream_mode" .string false "off",
    field "channels.telegram.approval_timeout_secs" .int false "120",
    field "channels.telegram.draft_update_interval_ms" .int false "1000",
    field "channels.telegram.poll_timeout_seconds" .int false "30",
    field "channels.telegram.message_split_bytes" .int false "3900",
    field "channels.webhook.enabled" .bool false "false",
    field "channels.webhook.bind" .string false "127.0.0.1",
    field "channels.webhook.port" .int false "8081",
    field "channels.webhook.path" .string false "/webhook/smolclaw",
    field "channels.webhook.auth_token" .string true "",
    field "channels.webhook.max_body_bytes" .int false "65536",
    field "channels.webhook.allowed_ips" .string false "[]",
    field "channels.rabbitmq.enabled" .bool false "false",
    field "channels.rabbitmq.url" .string true "",
    field "channels.rabbitmq.exchange" .string false "",
    field "channels.rabbitmq.routing_key" .string false "smolclaw.inbound",
    field "channels.rabbitmq.queue" .string false "smolclaw",
    field "channels.rabbitmq.consumer_tag" .string false "smolclaw-c",
    field "channels.rabbitmq.prefetch" .int false "1",
    field "channels.rabbitmq.durable" .bool false "true",
    field "channels.mail.enabled" .bool false "false",
    field "channels.mail.inbox_url" .string true "",
    field "channels.mail.smtp_url" .string false "",
    field "channels.mail.username" .string true "",
    field "channels.mail.password" .string true "",
    field "channels.mail.from" .string false "",
    field "channels.mail.to" .string false "",
    field "channels.mail.max_message_bytes" .int false "1048576",
    field "channels.mail.delete_after_read" .bool false "false"]

/-! ## Look-up -/

/-- The text before the first `<name>` of a pattern, and the text after it. -/
def wildcardSplit : Bytes → Option (Bytes × Bytes)
  | [] => none
  | c :: rest =>
      if str "<name>" <+: c :: rest then some ([], (c :: rest).drop (str "<name>").length)
      else (wildcardSplit rest).map fun cut => (c :: cut.1, cut.2)

/-- `field_path_matches` -/
def fieldPathMatches (path pattern : Bytes) : Bool :=
  match wildcardSplit pattern with
  | none => false
  | some (front, suffix) =>
      if path.length < front.length + suffix.length + 1 then false
      else if ¬ front <+: path then false
      else if suffix ≠ [] ∧ ¬ suffix <:+ path then false
      else ((path.drop front.length).take (path.length - front.length - suffix.length)).all
        fun ch => ch ≠ chr '.'

/-- `sc_config_field_lookup`: lengths are compared before the bytes. -/
def configFieldLookup (path : Bytes) : Option ConfigField :=
  match configFields.find? fun f => f.path.length == path.length && f.path == path with
  | some f => some f
  | none => configFields.find? fun f => fieldPathMatches path f.path

end SmolClaw.Config
